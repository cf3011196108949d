import FeatureAtlas.Jsonl.Writing
import FeatureAtlas.Proofs.Encoding.Fields

/-!
# Features and ledger records in any spelling

Whatever spelling an object has that holds the fields of a feature or of a
ledger record, it is read as that feature or record.  There is one line that
is written for it, with the fields in the order of their declaration.
-/

namespace FeatureAtlas

open Json

/-! ## Lines -/

/-- A list of texts as it is written. -/
def listText (texts : List String) : String :=
  "[" ++ ",".intercalate (texts.map fun text => (Value.text text).compact) ++
    "]"

theorem toList_listText (texts : List String) :
    (listText texts).toList = (Value.texts texts).written := by
  have items :
      (",".intercalate
          (texts.map fun text => (Value.text text).compact)).toList =
        Value.writtenItems (texts.map Value.text) := by
    rw [String.toList_intercalate]
    induction texts with
    | nil => rfl
    | cons text texts induction =>
        cases texts with
        | nil => simp [Value.writtenItems, Value.writtenMoreItems, Value.compact]
        | cons next texts =>
            simp only [List.map_cons] at induction ⊢
            rw [List.intercalate_cons_cons, induction]
            simp [Value.writtenItems, Value.writtenMoreItems, Value.compact]
  rw [listText, String.toList_append, String.toList_append, items, Value.texts,
    Value.written]
  rfl

/-- The line of a ledger record: its fields in the order of declaration. -/
def InvocationRecord.line (record : InvocationRecord) : String :=
  "\x7b\"product\":" ++ (Value.text record.product).compact ++
    ",\"version\":" ++ (Value.text record.version).compact ++
      ",\"signature\":" ++ (Value.text record.signature).compact ++
        ",\"invoked_signatures\":" ++ listText record.invoked ++ "\x7d\n"

/-- The line of a feature: the parts of its identity and then its signatures. -/
def Feature.line (feature : Feature) : String :=
  "\x7b\"product\":" ++ (Value.text feature.id.product).compact ++
    ",\"group\":" ++ (Value.text feature.id.group).compact ++
      ",\"title\":" ++ (Value.text feature.id.title).compact ++
        ",\"version\":" ++ (Value.text feature.id.version).compact ++
          ",\"direct_invocation_signatures\":" ++
            listText feature.signatures ++ "\x7d\n"

theorem lineOf_eq_of_toList
    {value : Value} {line : String}
    (same : line.toList = value.written ++ ['\n']) :
    Jsonl.lineOf value = Utf8.ofText line := by
  rw [Jsonl.lineOf, Utf8.ofText, same, Utf8.encode_append]
  rfl

theorem InvocationRecord.lineOf_toValue (record : InvocationRecord) :
    Jsonl.lineOf record.toValue = Utf8.ofText record.line := by
  have keys :
      "\x7b\"product\":".toList = '\x7b' :: (quoted "product" ++ [':']) ∧
        ",\"version\":".toList = ',' :: (quoted "version" ++ [':']) ∧
          ",\"signature\":".toList = ',' :: (quoted "signature" ++ [':']) ∧
            ",\"invoked_signatures\":".toList =
              ',' :: (quoted "invoked_signatures" ++ [':']) := by
    decide
  obtain ⟨product, version, signature, invoked⟩ := keys
  have ending : "\x7d\n".toList = ['\x7d', '\n'] := rfl
  refine lineOf_eq_of_toList ?_
  unfold line
  simp only [toValue, Value.written, Value.writtenMembers,
    Value.writtenMoreMembers, ← toList_listText, String.toList_append,
    Value.compact, String.toList_ofList, product, version, signature,
    invoked, ending, List.append_assoc, List.cons_append, List.nil_append]

theorem Feature.lineOf_toValue (feature : Feature) :
    Jsonl.lineOf feature.toValue = Utf8.ofText feature.line := by
  have keys :
      "\x7b\"product\":".toList = '\x7b' :: (quoted "product" ++ [':']) ∧
        ",\"group\":".toList = ',' :: (quoted "group" ++ [':']) ∧
          ",\"title\":".toList = ',' :: (quoted "title" ++ [':']) ∧
            ",\"version\":".toList = ',' :: (quoted "version" ++ [':']) ∧
              ",\"direct_invocation_signatures\":".toList =
                ',' :: (quoted "direct_invocation_signatures" ++ [':']) := by
    decide
  obtain ⟨product, group, title, version, signatures⟩ := keys
  have ending : "\x7d\n".toList = ['\x7d', '\n'] := rfl
  refine lineOf_eq_of_toList ?_
  unfold line
  simp only [toValue, FeatureId.members, Value.written, Value.writtenMembers,
    Value.writtenMoreMembers, ← toList_listText, String.toList_append,
    Value.compact, String.toList_ofList, product, group, title, version,
    signatures, ending, List.append_assoc, List.cons_append, List.nil_append]

/--
Features and ledger records are read from any object that holds their fields,
in whatever order and spelling, and are written with their fields in the order
of declaration.
-/
theorem records_read_however_spelled :
    (∀ (feature : Feature) (members : List (String × Value)) (data : Bytes),
      feature.Spelled members →
        SpellsDocument (.object members) data →
          readDocument Feature.reader data = .ok feature ∧
            Jsonl.lineOf feature.toValue = Utf8.ofText feature.line) ∧
      ∀ (record : InvocationRecord) (members : List (String × Value))
          (data : Bytes),
        record.Spelled members →
          SpellsDocument (.object members) data →
            readDocument InvocationRecord.reader data = .ok record ∧
              Jsonl.lineOf record.toValue = Utf8.ofText record.line := by
  constructor
  · intro feature members data spelled document
    exact
      ⟨readDocument_of_understands spelled.understands document,
        feature.lineOf_toValue⟩
  · intro record members data spelled document
    exact
      ⟨readDocument_of_understands spelled.understands document,
        record.lineOf_toValue⟩

/-- A member that holds a text, without white space around its colon. -/
theorem spellsMember_text
    {key text : String} {name form : Bytes} (named : SpellsText key name)
    (spelled : SpellsText text form) :
    SpellsMember Spells (key, .text text)
      (name ++ ([] ++ colonByte :: ([] ++ form))) :=
  .mk named blank_nil blank_nil (.text spelled)

def checkout : Feature :=
  ⟨⟨"Shop", "", "Checkout", "1"⟩, ["Checkout()", "Pay()"]⟩

/-- The fields of the feature without its group, with the other name of the list and a remark. -/
def checkoutMembers : List (String × Value) :=
  [("directInvocationSignatures", .texts ["Checkout()", "Pay()"]),
    ("version", .text "1"), ("remark", .text "n/a"),
    ("title", .text "Checkout"), ("product", .text "Shop")]

def checkoutText : String :=
  "\x7b\"directInvocationSignatures\" : [\"Checkout()\", \"Pay()\"]," ++
    "\"version\":\"1\",\"remark\":\"n\\/a\"," ++
      "\"title\":\"\\u0043heckout\",\"product\":\"Shop\" \x7d\r"

theorem spelled_checkout : checkout.Spelled checkoutMembers := by
  refine
    ⟨_, _, [("remark", "n/a")], .leftOut rfl,
      .written "directInvocationSignatures" (by decide), by decide, ?_⟩
  have texts :
      [("version", "1"), ("remark", "n/a"), ("title", "Checkout"),
          ("product", "Shop")].Perm
        [("product", "Shop"), ("title", "Checkout"), ("version", "1"),
          ("remark", "n/a")] := by
    decide
  have others :
      (textMembers
          [("version", "1"), ("remark", "n/a"), ("title", "Checkout"),
            ("product", "Shop")]).Perm
        (textMembers
          [("product", "Shop"), ("title", "Checkout"), ("version", "1"),
            ("remark", "n/a")]) :=
    texts.map _
  exact .cons _ others

theorem spells_checkoutText :
    SpellsDocument (.object checkoutMembers) (Utf8.ofText checkoutText) := by
  have space : Blank [0x20] := by decide
  have list :
      Spells (.texts ["Checkout()", "Pay()"])
        (Utf8.ofText "[\"Checkout()\", \"Pay()\"]") :=
    .array
      (.cons blank_nil (.text (spellsText_verbatim "Checkout()" (by decide)))
        (.cons blank_nil space
          (.text (spellsText_verbatim "Pay()" (by decide)))
          (.nil blank_nil)))
  have remark : SpellsText "n/a" (Utf8.ofText "\"n\\/a\"") := by
    refine ⟨[[0x6E], [0x5C, 0x2F], [0x61]], .cons ?_ (.cons ?_ ?_), by decide⟩
    · exact .verbatim (by decide) (by decide) (by decide)
    · exact .letter '/' (by decide)
    · exact forall₂_verbatim (by decide : Unescaped ['a'])
  have title : SpellsText "Checkout" (Utf8.ofText "\"\\u0043heckout\"") := by
    refine
      ⟨[0x5C, 0x75, 0x30, 0x30, 0x34, 0x33] ::
          "heckout".toList.map String.utf8EncodeChar,
        .cons ?_ ?_, by decide⟩
    · exact .unit 0x30 0x30 0x34 0x33 (by decide)
    · exact forall₂_verbatim (by decide)
  have members :=
    SpellsItems.cons blank_nil
      (.mk (spellsText_verbatim "directInvocationSignatures" (by decide))
        space space list)
      (.cons blank_nil blank_nil
        (spellsMember_text (spellsText_verbatim "version" (by decide))
          (spellsText_verbatim "1" (by decide)))
        (.cons blank_nil blank_nil
          (spellsMember_text (spellsText_verbatim "remark" (by decide)) remark)
          (.cons blank_nil blank_nil
            (spellsMember_text (spellsText_verbatim "title" (by decide)) title)
            (.cons blank_nil blank_nil
              (spellsMember_text (spellsText_verbatim "product" (by decide))
                (spellsText_verbatim "Shop" (by decide)))
              (.nil space)))))
  exact
    ⟨[], _, [0x0D], blank_nil, .object members, by decide,
      by decide +kernel⟩

def payment : InvocationRecord :=
  ⟨"Shop", "1", "Pay()", []⟩

/-- The fields of the record without its list, which is empty. -/
def paymentMembers : List (String × Value) :=
  [("signature", .text "Pay()"), ("version", .text "1"),
    ("product", .text "Shop")]

def paymentText : String :=
  "\x7b\"signature\":\"Pay()\",\"version\":\"1\",\"product\":\"Shop\"\x7d"

theorem spelled_payment : payment.Spelled paymentMembers := by
  refine ⟨_, [], .leftOut rfl, by simp, ?_⟩
  exact (List.reverse_perm paymentMembers).symm

theorem spells_paymentText :
    SpellsDocument (.object paymentMembers) (Utf8.ofText paymentText) := by
  have members :=
    SpellsItems.cons blank_nil
      (spellsMember_text (spellsText_verbatim "signature" (by decide))
        (spellsText_verbatim "Pay()" (by decide)))
      (.cons blank_nil blank_nil
        (spellsMember_text (spellsText_verbatim "version" (by decide))
          (spellsText_verbatim "1" (by decide)))
        (.cons blank_nil blank_nil
          (spellsMember_text (spellsText_verbatim "product" (by decide))
            (spellsText_verbatim "Shop" (by decide)))
          (.nil blank_nil)))
  exact
    ⟨[], _, [], blank_nil, .object members, blank_nil, by decide +kernel⟩

/-- A feature and a record whose members stand in the other order. -/
theorem records_read_however_spelled_of_checkout :
    checkout.Spelled checkoutMembers ∧
      SpellsDocument (.object checkoutMembers) (Utf8.ofText checkoutText) ∧
        readDocument Feature.reader (Utf8.ofText checkoutText) =
            .ok checkout ∧
          Jsonl.lineOf checkout.toValue =
              Utf8.ofText
                ("\x7b\"product\":\"Shop\",\"group\":\"\"," ++
                  "\"title\":\"Checkout\",\"version\":\"1\"," ++
                    "\"direct_invocation_signatures\":" ++
                      "[\"Checkout()\",\"Pay()\"]\x7d\n") ∧
            payment.Spelled paymentMembers ∧
              SpellsDocument (.object paymentMembers)
                  (Utf8.ofText paymentText) ∧
                readDocument InvocationRecord.reader
                      (Utf8.ofText paymentText) =
                    .ok payment ∧
                  Jsonl.lineOf payment.toValue = Utf8.ofText payment.line := by
  obtain ⟨ofFeature, ofRecord⟩ := records_read_however_spelled
  obtain ⟨feature, featureLine⟩ :=
    ofFeature checkout checkoutMembers _ spelled_checkout spells_checkoutText
  obtain ⟨record, recordLine⟩ :=
    ofRecord payment paymentMembers _ spelled_payment spells_paymentText
  have line :
      checkout.line =
        "\x7b\"product\":\"Shop\",\"group\":\"\"," ++
          "\"title\":\"Checkout\",\"version\":\"1\"," ++
            "\"direct_invocation_signatures\":" ++
              "[\"Checkout()\",\"Pay()\"]\x7d\n" := by
    decide +kernel
  rw [line] at featureLine
  exact
    ⟨spelled_checkout, spells_checkoutText, feature, featureLine,
      spelled_payment, spells_paymentText, record, recordLine⟩

end FeatureAtlas
