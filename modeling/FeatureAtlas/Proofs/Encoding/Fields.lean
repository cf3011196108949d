import FeatureAtlas.Encoding.Feature
import FeatureAtlas.Encoding.Ledger
import FeatureAtlas.Proofs.Json.Understanding
import Mathlib.Data.List.Pairwise
import Mathlib.Data.List.Perm.Basic

/-!
# Objects that hold the fields of a record

An object holds the fields of a feature or of a ledger record if its members
are those of the fields, in any order and with unknown keys among them; lists
have two names, and what is empty may be left out.  The reader of ledger
records puts each member into a place of its own, so the order does not show.
The reader of features sets members aside in their order, but looks the parts
of the identity up by their names.
-/

namespace FeatureAtlas

open Json

/-! ## Objects that hold fields -/

/-- What an object holds of a field: one member under a name of it, or none if it is empty. -/
inductive Optionally (keys : List String) (value : Value) (empty : Prop) :
    List (String × Value) → Prop where
  | written (key : String) (listed : key ∈ keys) :
      Optionally keys value empty [(key, value)]
  | leftOut (isEmpty : empty) : Optionally keys value empty []

/-- Members that hold texts. -/
def textMembers (texts : List (String × String)) : List (String × Value) :=
  texts.map fun entry => (entry.1, .text entry.2)

/-- What is in the order of mapped items is mapped from items in that order. -/
theorem exists_map_of_perm
    {α β : Type} {f : α → β} {items : List α} {mapped : List β}
    (same : mapped.Perm (items.map f)) :
    ∃ order : List α, mapped = order.map f ∧ order.Perm items := by
  have reordered := congrFun (congrFun (List.eq_map_comp_perm f) mapped) items
  exact reordered.mpr same

namespace InvocationRecord

/-- The names of the list of callees. -/
def listKeys : List String :=
  ["invoked_signatures", "invokedSignatures"]

/-- The members of an object that holds the fields of a ledger record. -/
def Spelled (record : InvocationRecord) (members : List (String × Value)) :
    Prop :=
  ∃ list extra,
    Optionally listKeys (.texts record.invoked) (record.invoked = []) list ∧
      (∀ entry ∈ extra,
        entry.1 ∉ ["product", "version", "signature"] ++ listKeys) ∧
        members.Perm
          (textMembers
              [("product", record.product), ("version", record.version),
                ("signature", record.signature)] ++
            (list ++ textMembers extra))

end InvocationRecord

namespace Feature

/-- The names of the parts of an identity. -/
def idKeys : List String :=
  ["product", "group", "title", "version"]

/-- The names of the list of signatures. -/
def listKeys : List String :=
  ["direct_invocation_signatures", "directInvocationSignatures"]

/-- The members of an object that holds the fields of a feature. -/
def Spelled (feature : Feature) (members : List (String × Value)) : Prop :=
  ∃ group list extra,
    Optionally ["group"] (.text feature.id.group) (feature.id.group = "")
        group ∧
      Optionally listKeys (.texts feature.signatures)
          (feature.signatures = []) list ∧
        (∀ entry ∈ extra, entry.1 ∉ idKeys ++ listKeys) ∧
          members.Perm
            (list ++
              (textMembers
                  [("product", feature.id.product),
                    ("title", feature.id.title),
                    ("version", feature.id.version)] ++
                (group ++ textMembers extra)))

end Feature

/-! ## Ledger records -/

namespace InvocationRecord

/-- A member of an object that is read as a ledger record. -/
inductive Piece
  | product (text : String)
  | version (text : String)
  | signature (text : String)
  | invoked (key : String) (texts : List String)
  | extra (key text : String)

namespace Piece

def member : Piece → String × Value
  | product text => ("product", .text text)
  | version text => ("version", .text text)
  | signature text => ("signature", .text text)
  | invoked key texts => (key, .texts texts)
  | extra key text => (key, .text text)

/-- The parts of a record with a piece in its place. -/
def put (parts : RecordParts) : Piece → RecordParts
  | product text => { parts with product := some text }
  | version text => { parts with version := some text }
  | signature text => { parts with signature := some text }
  | invoked _ texts => { parts with invoked := some texts }
  | extra _ _ => parts

/-- The place of a piece is free, or it has no place. -/
def Fits (parts : RecordParts) : Piece → Prop
  | product _ => parts.product = none
  | version _ => parts.version = none
  | signature _ => parts.signature = none
  | invoked key _ => key ∈ listKeys ∧ parts.invoked = none
  | extra key _ =>
    key ∉ ["product", "version", "signature"] ++ listKeys

/-- Two pieces do not go to the same place. -/
def Apart : Piece → Piece → Prop
  | product _, product _ => False
  | version _, version _ => False
  | signature _, signature _ => False
  | invoked _ _, invoked _ _ => False
  | _, _ => True

instance : Std.Symm Apart where
  symm first second apart := by
    cases first <;> cases second <;> exact apart

theorem Fits.put
    {parts : RecordParts} {piece other : Piece} (fits : piece.Fits parts)
    (apart : piece.Apart other) : piece.Fits (other.put parts) := by
  cases piece <;> cases other <;> first | exact fits | exact apart.elim

theorem put_comm
    {first second : Piece} (apart : first.Apart second)
    (parts : RecordParts) :
    second.put (first.put parts) = first.put (second.put parts) := by
  cases first <;> cases second <;> first | rfl | exact apart.elim

/-- A piece that fits is read into its place. -/
theorem Fits.exists_reader
    {parts : RecordParts} {piece : Piece} (fits : piece.Fits parts) :
    ∃ reader,
      RecordParts.shape.member parts piece.member.1 = .ok reader ∧
        reader.Understands piece.member.2 (piece.put parts) := by
  obtain ⟨product, version, signature, invoked⟩ := parts
  cases piece with
  | product text =>
      obtain rfl : product = none := fits
      exact ⟨_, rfl, (readText_understands text).into _⟩
  | version text =>
      obtain rfl : version = none := fits
      exact ⟨_, rfl, (readText_understands text).into _⟩
  | signature text =>
      obtain rfl : signature = none := fits
      exact ⟨_, rfl, (readText_understands text).into _⟩
  | invoked key texts =>
      obtain ⟨listed, rfl⟩ : key ∈ listKeys ∧ invoked = none := fits
      simp only [listKeys, List.mem_cons, List.not_mem_nil, or_false] at listed
      rcases listed with rfl | rfl <;>
        exact ⟨_, rfl, (readList_understands_texts texts).into _⟩
  | extra key text =>
      refine ⟨_, ?_, passing_understands text _⟩
      have unknown : RecordParts.shape.field? key = none := by
        simpa [Fits, listKeys, RecordShape.field?, RecordParts.shape,
          Field.text, Field.optionalList] using fits
      rw [RecordShape.member, member, unknown]
      rfl

/-- Pieces for different places are read one after the other, each into its own. -/
theorem absorbs_put
    {pieces : List Piece} (apart : pieces.Pairwise Apart)
    {parts : RecordParts} (fits : ∀ piece ∈ pieces, piece.Fits parts) :
    Absorbs RecordParts.shape.member parts (pieces.map member)
      (pieces.foldl put parts) := by
  induction pieces generalizing parts with
  | nil => exact .nil parts
  | cons piece pieces induction =>
      obtain ⟨here, others⟩ := List.pairwise_cons.mp apart
      obtain ⟨fitsHere, fitsLater⟩ := List.forall_mem_cons.mp fits
      obtain ⟨reader, known, understands⟩ := fitsHere.exists_reader
      refine .cons known understands (induction others ?_)
      exact fun other listed =>
        (fitsLater other listed).put (symm (here other listed))

/-- In which order pieces are put into their places does not show. -/
theorem foldl_put_of_perm
    {pieces others : List Piece} (apart : pieces.Pairwise Apart)
    (same : pieces.Perm others) (parts : RecordParts) :
    pieces.foldl put parts = others.foldl put parts := by
  refine same.foldl_eq' (fun first firstIn second secondIn parts => ?_) parts
  by_cases equal : first = second
  · rw [equal]
  · exact put_comm (apart.forall firstIn secondIn equal) parts

/-- Pieces in any order with unknown members among them are put into their places. -/
theorem absorbs_of_perm
    {pieces : List Piece} (apart : pieces.Pairwise Apart)
    (fits : ∀ piece ∈ pieces, piece.Fits {}) {others : List (String × String)}
    (unknown :
      ∀ entry ∈ others,
        entry.1 ∉ ["product", "version", "signature"] ++ listKeys)
    {members : List (String × Value)}
    (same : members.Perm (pieces.map member ++ textMembers others)) :
    Absorbs RecordParts.shape.member {} members (pieces.foldl put {}) := by
  let more := others.map fun entry => extra entry.1 entry.2
  have moreApart : (pieces ++ more).Pairwise Apart := by
    have free (piece : Piece) (key text : String) :
        piece.Apart (extra key text) := by
      cases piece <;> trivial
    refine
      List.pairwise_append.mpr
        ⟨apart, List.pairwise_map.mpr (List.pairwise_of_forall fun _ _ => free _ _ _), ?_⟩
    exact fun piece _ => List.forall_mem_map.mpr fun _ _ => free piece _ _
  have moreFit : ∀ piece ∈ pieces ++ more, piece.Fits {} :=
    List.forall_mem_append.mpr ⟨fits, List.forall_mem_map.mpr unknown⟩
  have unchanged (parts : RecordParts) : more.foldl put parts = parts := by
    rw [List.foldl_map]
    exact List.foldl_fixed _
  have whole :
      pieces.map member ++ textMembers others =
        (pieces ++ more).map member := by
    rw [List.map_append, List.map_map]
    rfl
  rw [whole] at same
  obtain ⟨order, rfl, shuffled⟩ := exists_map_of_perm same
  have absorbs :=
    absorbs_put ((shuffled.pairwise_iff symm).mpr moreApart)
      fun piece listed => moreFit piece (shuffled.mem_iff.mp listed)
  rwa [← foldl_put_of_perm moreApart shuffled.symm, List.foldl_append,
    unchanged] at absorbs

end Piece

/-- The parts of a record are found in any object that holds its fields. -/
theorem Spelled.absorbs
    {record : InvocationRecord} {members : List (String × Value)}
    (spelled : record.Spelled members) :
    ∃ invoked,
      Absorbs RecordParts.shape.member {} members
          { product := some record.product
            version := some record.version
            signature := some record.signature
            invoked := invoked } ∧
        invoked.getD [] = record.invoked := by
  obtain ⟨list, others, held, unknown, same⟩ := spelled
  let texts : List Piece :=
    [.product record.product, .version record.version,
      .signature record.signature]
  cases held with
  | written key listed =>
      let pieces := texts ++ [.invoked key record.invoked]
      have apart : pieces.Pairwise Piece.Apart := by
        simp [pieces, texts, Piece.Apart]
      have fits : ∀ piece ∈ pieces, piece.Fits {} := by
        simp [pieces, texts, Piece.Fits, listed]
      exact
        ⟨some record.invoked, Piece.absorbs_of_perm apart fits unknown same,
          rfl⟩
  | leftOut isEmpty =>
      have apart : texts.Pairwise Piece.Apart := by simp [texts, Piece.Apart]
      have fits : ∀ piece ∈ texts, piece.Fits {} := by
        simp [texts, Piece.Fits]
      exact
        ⟨none, Piece.absorbs_of_perm apart fits unknown same, isEmpty.symm⟩

/-- A ledger record is read from any object that holds its fields. -/
theorem Spelled.understands
    {record : InvocationRecord} {members : List (String × Value)}
    (spelled : record.Spelled members) :
    reader.Understands (.object members) record := by
  obtain ⟨invoked, absorbs, same⟩ := spelled.absorbs
  have whole :
      InvocationRecord.mk record.product record.version record.signature
          (invoked.getD []) =
        record := by
    rw [same]
  have understands :
      (RecordParts.shape.read {}).Understands (.object members)
        ⟨some record.product, some record.version, some record.signature,
          invoked⟩ :=
    RecordShape.readWithin_understands (by decide) absorbs rfl
  rw [← whole]
  exact understands.into _

end InvocationRecord

/-! ## Features -/

/-- Texts are found by their names, wherever they stand among other ones. -/
theorem exists_namedTexts
    {names : List String} {texts : List (String × String)}
    (once : texts.Pairwise fun one other => one.1 = other.1 → one.1 ∉ names)
    {found : Table String String}
    (fresh : ∀ entry ∈ texts, entry.1 ∈ names → found.get? entry.1 = none) :
    ∃ table,
      namedTexts names (textMembers texts) found = .ok table ∧
        ∀ name ∈ names, ∀ text,
          table.get? name = some text ↔
            found.get? name = some text ∨ (name, text) ∈ texts := by
  induction texts generalizing found with
  | nil => exact ⟨found, rfl, by simp⟩
  | cons entry texts induction =>
      obtain ⟨key, here⟩ := entry
      obtain ⟨apart, others⟩ := List.pairwise_cons.mp once
      obtain ⟨freshHere, freshLater⟩ := List.forall_mem_cons.mp fresh
      by_cases named : key ∈ names
      · have free := freshHere named
        have freshNext :
            ∀ entry ∈ texts, entry.1 ∈ names →
              (found.insert key here).get? entry.1 = none := by
          intro entry listed known
          rw [Table.get?_insert, if_neg fun same => apart entry listed same named]
          exact freshLater entry listed known
        obtain ⟨table, read, told⟩ := induction others freshNext
        refine ⟨table, ?_, fun name known text => ?_⟩
        · rw [← read, textMembers, List.map_cons, namedTexts, if_pos named,
            Table.contains, free]
          rfl
        · rw [told name known, Table.get?_insert]
          by_cases same : key = name
          · subst same
            simp [free, eq_comm]
          · simp [same, Ne.symm same]
      · obtain ⟨table, read, told⟩ := induction others freshLater
        refine ⟨table, ?_, fun name known text => ?_⟩
        · rw [← read, textMembers, List.map_cons, namedTexts, if_neg named]
          rfl
        · have other : name ≠ key := fun same => named (same ▸ known)
          rw [told name known]
          simp [other]

namespace Feature

/-- Texts are set aside in their order. -/
theorem absorbs_textMembers
    {texts : List (String × String)}
    (unlisted : ∀ entry ∈ texts, entry.1 ∉ signatureKeys)
    (parts : FeatureParts) :
    Absorbs Feature.member parts (textMembers texts)
      { parts with
        others := (textMembers texts).reverse ++ parts.others } := by
  induction texts generalizing parts with
  | nil => exact .nil parts
  | cons entry texts induction =>
      obtain ⟨key, text⟩ := entry
      obtain ⟨here, others⟩ := List.forall_mem_cons.mp unlisted
      have next :=
        induction others { parts with others := (key, .text text) :: parts.others }
      refine .cons (if_neg here) ((readValue_understands_text text _).into _) ?_
      simpa [textMembers] using next

/-- The list of signatures is read wherever it stands, and the texts around it are set aside. -/
theorem exists_absorbs
    {signatures : List String} {list members : List (String × Value)}
    (held :
      Optionally signatureKeys (.texts signatures) (signatures = []) list)
    {texts : List (String × String)}
    (unlisted : ∀ entry ∈ texts, entry.1 ∉ signatureKeys)
    (same : members.Perm (list ++ textMembers texts)) :
    ∃ listed order,
      Absorbs Feature.member {} members
          ⟨listed, (textMembers order).reverse⟩ ∧
        order.Perm texts ∧ listed.getD [] = signatures := by
  cases held with
  | leftOut isEmpty =>
      obtain ⟨order, rfl, shuffled⟩ := exists_map_of_perm same
      have absorbs :=
        absorbs_textMembers
          (fun entry listed => unlisted entry (shuffled.mem_iff.mp listed)) {}
      rw [List.append_nil] at absorbs
      exact ⟨none, order, absorbs, shuffled, isEmpty.symm⟩
  | written key listed =>
      have member : (key, Value.texts signatures) ∈ members :=
        same.mem_iff.mpr List.mem_cons_self
      obtain ⟨before, after, rfl⟩ := List.append_of_mem member
      have others : (before ++ after).Perm (textMembers texts) :=
        (List.perm_middle.symm.trans same).cons_inv
      obtain ⟨order, split, shuffled⟩ := exists_map_of_perm others
      obtain ⟨first, second, rfl, rfl, rfl⟩ := List.append_eq_map_iff.mp split
      obtain ⟨unlistedFirst, unlistedSecond⟩ :=
        List.forall_mem_append.mp fun entry listed =>
          unlisted entry (shuffled.mem_iff.mp listed)
      have list :=
        (readList_understands_texts signatures).into fun signatures =>
          ({ signatures := some signatures
             others := (textMembers first).reverse ++ [] } : FeatureParts)
      have absorbs :=
        (absorbs_textMembers unlistedFirst {}).append
          (.cons (if_pos listed) list (absorbs_textMembers unlistedSecond _))
      refine ⟨some signatures, first ++ second, ?_, shuffled, rfl⟩
      simpa [textMembers] using absorbs

/-- The parts of an identity are found in any order, and among other texts. -/
theorem idAmong_textMembers
    {id : FeatureId} {group extra texts : List (String × String)}
    (held : group = [("group", id.group)] ∨ id.group = "" ∧ group = [])
    (unknown : ∀ entry ∈ extra, entry.1 ∉ idKeys)
    (same :
      texts.Perm
        ([("product", id.product), ("title", id.title),
            ("version", id.version)] ++
          (group ++ extra))) :
    idAmong (textMembers texts) = .ok id := by
  let Once (one other : String × String) : Prop :=
    one.1 = other.1 → one.1 ∉ idKeys
  have once : texts.Pairwise Once := by
    have known :
        ([("product", id.product), ("title", id.title),
              ("version", id.version)] ++
            group).Pairwise Once := by
      rcases held with rfl | ⟨-, rfl⟩ <;> simp [Once]
    have others : extra.Pairwise Once :=
      List.pairwise_of_forall_mem_list fun one listed _ _ _ =>
        unknown one listed
    rw [← List.append_assoc] at same
    refine
      (same.pairwise_iff fun apart equal => equal ▸ apart equal.symm).mpr
        (List.pairwise_append.mpr ⟨known, others, ?_⟩)
    exact fun one _ other listed equal => equal ▸ unknown other listed
  obtain ⟨table, read, told⟩ :=
    exists_namedTexts once fun _ _ _ => Table.get?_empty _
  have required (name text : String) (known : name ∈ idKeys)
      (listed : (name, text) ∈ texts) : table.get? name = some text :=
    (told name known text).mpr (.inr listed)
  have product := required "product" id.product (by decide) (same.mem_iff.mpr (by simp))
  have title := required "title" id.title (by decide) (same.mem_iff.mpr (by simp))
  have version := required "version" id.version (by decide) (same.mem_iff.mpr (by simp))
  have belonging : (table.get? "group").getD "" = id.group := by
    rcases held with rfl | ⟨isEmpty, rfl⟩
    · rw [required "group" id.group (by decide) (same.mem_iff.mpr (by simp))]
      rfl
    · cases got : table.get? "group" with
      | none => exact isEmpty.symm
      | some text =>
          have there := (told "group" (by decide) text).mp got
          rw [Table.get?_empty, same.mem_iff] at there
          have other : ("group", text) ∈ extra := by simpa using there
          exact absurd (by decide : "group" ∈ idKeys) (unknown _ other)
  unfold idKeys at read
  simp only [idAmong, read, requiredText, product, title, version, belonging,
    bind, Except.bind]

/-- A feature is read from any object that holds its fields. -/
theorem Spelled.understands
    {feature : Feature} {members : List (String × Value)}
    (spelled : feature.Spelled members) :
    reader.Understands (.object members) feature := by
  obtain ⟨held, list, extra, heldGroup, heldList, unknown, same⟩ := spelled
  obtain ⟨group, rfl, either⟩ :
      ∃ group,
        held = textMembers group ∧
          (group = [("group", feature.id.group)] ∨
            feature.id.group = "" ∧ group = []) := by
    cases heldGroup with
    | written key listed =>
        obtain rfl := List.mem_singleton.mp listed
        exact ⟨_, rfl, .inl rfl⟩
    | leftOut isEmpty => exact ⟨[], rfl, .inr ⟨isEmpty, rfl⟩⟩
  simp only [List.mem_append, not_or] at unknown
  have unlisted :
      ∀ entry ∈
          [("product", feature.id.product), ("title", feature.id.title),
              ("version", feature.id.version)] ++
            (group ++ extra),
        entry.1 ∉ signatureKeys := by
    refine List.forall_mem_append.mpr ⟨by simp [signatureKeys], ?_⟩
    refine
      List.forall_mem_append.mpr
        ⟨?_, fun entry listed => (unknown entry listed).2⟩
    rcases either with rfl | ⟨-, rfl⟩ <;> simp [signatureKeys]
  have texts :
      members.Perm
        (list ++
          textMembers
            ([("product", feature.id.product), ("title", feature.id.title),
                ("version", feature.id.version)] ++
              (group ++ extra))) := by
    simpa [textMembers] using same
  obtain ⟨listed, order, absorbs, shuffled, signatures⟩ :=
    exists_absorbs heldList unlisted texts
  have identity :=
    idAmong_textMembers either (fun entry member => (unknown entry member).1)
      shuffled
  rintro before _ isBlank (_ | _ | ⟨spelled⟩) rest
  rw [reader, List.append_assoc, skipSpace_blank isBlank, List.cons_append,
    skipSpace_cons (by decide), List.append_assoc, List.singleton_append]
  simp only [if_true, spelled.readAllMembers absorbs, List.reverse_reverse,
    identity, signatures, bind, Except.bind]

end Feature

end FeatureAtlas
