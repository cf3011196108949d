import FeatureAtlas.Output.Tree
import FeatureAtlas.Proofs.Json.Printable

/-!
# Characters of labels

What is drawn around names has no control characters.  So a control character
stands in a label or in a line only if it stands in a name.
-/

namespace FeatureAtlas

open Json (Printable)

/-- A character that stands in none of the names of a feature. -/
def FeatureId.Lacks (id : FeatureId) (character : Char) : Prop :=
  ∀ name ∈ [id.product, id.group, id.title, id.version],
    character ∉ name.toList

instance (id : FeatureId) (character : Char) :
    Decidable (id.Lacks character) :=
  inferInstanceAs
    (Decidable
      (∀ name ∈ [id.product, id.group, id.title, id.version],
        character ∉ name.toList))

/-- A character that stands in no name of the nodes of an arena. -/
def Arena.Lacks (arena : Arena) (character : Char) : Prop :=
  ∀ node ∈ arena.nodes, node.feature.Lacks character

instance (arena : Arena) (character : Char) :
    Decidable (arena.Lacks character) :=
  inferInstanceAs
    (Decidable (∀ node ∈ arena.nodes, node.feature.Lacks character))

theorem Arena.Lacks.node
    {arena : Arena} {character : Char} (lacks : arena.Lacks character)
    (place : Nat) : (arena.node place).feature.Lacks character := by
  cases found : arena.node? place with
  | none =>
      have unnamed : (default : GraphNode).feature = ⟨"", "", "", ""⟩ := rfl
      rw [Arena.node, found, Option.getD_none, unnamed]
      intro name member
      have empty : name = "" := by simpa using member
      simp [empty]
  | some node =>
      rw [Arena.node, found, Option.getD_some]
      exact lacks node (List.mem_of_getElem? found)

namespace Output

/-- Where no character is a control character, none in particular is. -/
theorem not_mem_of_printable
    {characters : List Char} (printable : Printable characters)
    {character : Char} (control : character.toNat < 0x20) :
    character ∉ characters :=
  fun member => absurd control (Nat.not_lt.mpr (printable character member))

/-- A control character in a location stands in a name. -/
theorem not_mem_location
    {id : FeatureId} {character : Char} (lacks : id.Lacks character)
    (control : character.toNat < 0x20) :
    character ∉ (location id).toList := by
  have fixed :
      ∀ text ∈ ["[", "/", "@", "]"], character ∉ String.toList text := by
    intro text member
    refine not_mem_of_printable ?_ control
    revert text
    decide
  simp only [FeatureId.Lacks, List.forall_mem_cons] at lacks fixed
  have parts (first second : String) :
      character ∈ (first ++ second).toList ↔
        character ∈ first.toList ∨ character ∈ second.toList := by
    rw [String.toList_append, List.mem_append]
  rw [location]
  split <;> simp only [parts, lacks, fixed, or_self, not_false_eq_true]

/-! ## Indentations -/

theorem join_cons (first : String) (others : List String) :
    "".intercalate (first :: others) = first ++ "".intercalate others := by
  cases others <;> simp

theorem printable_append
    {first second : String} (left : Printable first.toList)
    (right : Printable second.toList) :
    Printable (first ++ second).toList := by
  rw [String.toList_append]
  exact left.append right

theorem printable_join
    {texts : List String} (each : ∀ text ∈ texts, Printable text.toList) :
    Printable ("".intercalate texts).toList := by
  induction texts with
  | nil => exact Json.printable_nil
  | cons text texts induction =>
      obtain ⟨here, others⟩ := List.forall_mem_cons.mp each
      rw [join_cons]
      exact printable_append here (induction others)

/-- Both sets of glyphs are without control characters. -/
theorem printable_glyphs (appearance : Appearance) :
    let glyphs := Glyphs.of appearance
    ∀ glyph ∈
        [glyphs.root, glyphs.branch, glyphs.corner, glyphs.pipe, glyphs.space,
          glyphs.dependsOn, glyphs.dependant],
      Printable glyph.toList := by
  rw [Glyphs.of]
  split <;> decide

theorem printable_arrow (appearance : Appearance) (relation : Relation) :
    Printable ((Glyphs.of appearance).arrow relation).toList := by
  cases relation <;> exact printable_glyphs appearance _ (by simp [Glyphs.arrow])

theorem printable_indentation (appearance : Appearance) (entry : Entry) :
    Printable (indentation (Glyphs.of appearance) entry).toList := by
  have glyphs := printable_glyphs appearance
  refine printable_append (printable_join ?_) ?_
  · refine List.forall_mem_map.mpr fun last _ => ?_
    cases last <;> exact glyphs _ (by simp)
  · split <;> exact glyphs _ (by simp)

/-! ## Lines -/

theorem unlines_nil : unlines [] = "" := rfl

theorem unlines_cons (line : String) (lines : List String) :
    unlines (line :: lines) = line ++ "\n" ++ unlines lines := by
  have from_ (start : String) :
      lines.foldl (fun text line => text ++ line ++ "\n") start =
        start ++ unlines lines := by
    rw [unlines]
    induction lines generalizing start with
    | nil => simp
    | cons next lines induction =>
        rw [List.foldl_cons, List.foldl_cons, induction,
          induction ("" ++ next ++ "\n")]
        simp [String.append_assoc]
  rw [unlines, List.foldl_cons, from_, String.empty_append]

end Output

end FeatureAtlas
