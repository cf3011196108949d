import FeatureAtlas.Output.Listing
import FeatureAtlas.Proofs.Output.Labels

/-!
# Colors add codes and nothing else

A text in a style has codes in it: an escape character, a bracket, digits and
the letter that ends the code.  Painting a text that has codes already puts
further ones around it and behind each reset.  So a text from which no
character has gone stays one with codes in it, and whoever takes the codes out
gets the text without colors, brackets and digits of its own included.
-/

namespace FeatureAtlas

/-- A character that stands in no part of a conflict. -/
structure Conflict.Lacks (conflict : Conflict) (character : Char) : Prop where
  signature : character ∉ conflict.signature.toList
  owner : conflict.owner.Lacks character
  ignored : conflict.ignored.Lacks character

namespace Output

open Json (Printable)
open Style (escape)

/-! ## Codes -/

/-- What follows a code behind its escape character, if a text begins with one. -/
def behindCode? : List Char → Option (List Char)
  | '[' :: digit :: rest =>
    if digit.isDigit then
      match rest.dropWhile Char.isDigit with
      | 'm' :: behind => some behind
      | _ => none
    else none
  | _ => none

theorem length_behindCode?
    {text behind : List Char} (found : behindCode? text = some behind) :
    behind.length < text.length := by
  rw [behindCode?.eq_def] at found
  split at found
  · next digit rest =>
      split at found
      · split at found
        · next later dropped =>
            have shorter := (List.dropWhile_suffix Char.isDigit (l := rest)).length_le
            rw [dropped] at shorter
            rw [← Option.some.inj found]
            simp only [List.length_cons] at shorter ⊢
            omega
        · cases found
      · cases found
  · cases found

/-- A text with its codes taken out, from the front to the end. -/
def withoutCodes : List Char → List Char
  | [] => []
  | character :: rest =>
    if character = escape then
      match _found : behindCode? rest with
      | some behind => withoutCodes behind
      | none => character :: withoutCodes rest
    else character :: withoutCodes rest
termination_by text => text.length
decreasing_by
  · have shorter := length_behindCode? _found
    simp only [List.length_cons]
    omega
  · simp
  · simp

/-- The code of a number that is given by its digits. -/
def codeOf (digits : List Char) : List Char :=
  escape :: '[' :: (digits ++ ['m'])

/-- A text without escape characters, and the same text with codes in it. -/
inductive Inked : List Char → List Char → Prop where
  | nil : Inked [] []
  | character
      {character : Char} {plain inked : List Char}
      (other : character ≠ escape) (rest : Inked plain inked) :
      Inked (character :: plain) (character :: inked)
  | code
      {digits plain inked : List Char} (inhabited : digits ≠ [])
      (each : ∀ digit ∈ digits, digit.isDigit = true)
      (rest : Inked plain inked) :
      Inked plain (codeOf digits ++ inked)

namespace Inked

variable {plain inked : List Char}

theorem of_not_mem
    {text : List Char} (clean : escape ∉ text) : Inked text text := by
  induction text with
  | nil => exact .nil
  | cons character text induction =>
      rw [List.mem_cons, not_or] at clean
      exact .character (Ne.symm clean.1) (induction clean.2)

theorem append
    {plainLater inkedLater : List Char} (first : Inked plain inked)
    (second : Inked plainLater inkedLater) :
    Inked (plain ++ plainLater) (inked ++ inkedLater) := by
  induction first with
  | nil => exact second
  | character other _ induction => exact .character other induction
  | code inhabited each _ induction =>
      rw [List.append_assoc]
      exact .code inhabited each induction

/-- With the codes taken out, the text is left. -/
theorem withoutCodes_eq (colored : Inked plain inked) :
    withoutCodes inked = plain := by
  induction colored with
  | nil => rw [withoutCodes]
  | character other _ induction =>
      rw [withoutCodes, if_neg other, induction]
  | @code digits _ inked inhabited each _ induction =>
      have found :
          behindCode? ('[' :: (digits ++ ['m']) ++ inked) = some inked := by
        obtain ⟨digit, digits, rfl⟩ := List.exists_cons_of_ne_nil inhabited
        obtain ⟨first, others⟩ := List.forall_mem_cons.mp each
        rw [List.cons_append, List.append_assoc, List.cons_append,
          List.cons_append, List.nil_append, behindCode?, if_pos first,
          List.dropWhile_append_of_pos others]
        rfl
      rw [codeOf, List.cons_append, withoutCodes, if_pos rfl]
      split
      · next behind same =>
          rw [found, Option.some.injEq] at same
          rw [← same, induction]
      · next same =>
          rw [found] at same
          cases same

end Inked

/-! ## Painting -/

theorem resume_cons_of_ne
    {character : Char} (other : character ≠ escape) (code rest : List Char) :
    Style.resume code (character :: rest) =
      character :: Style.resume code rest := by
  rw [Style.resume]
  rintro _ rfl
  exact absurd rfl other

theorem resume_append_of_not_mem
    {front : List Char} (clean : escape ∉ front) (code rest : List Char) :
    Style.resume code (front ++ rest) = front ++ Style.resume code rest := by
  induction front with
  | nil => rfl
  | cons character front induction =>
      rw [List.mem_cons, not_or] at clean
      rw [List.cons_append, resume_cons_of_ne (Ne.symm clean.1),
        induction clean.2, List.cons_append]

/-- A code stays, and if it is a reset the style's own code follows it. -/
theorem resume_codeOf
    {digits : List Char} (inhabited : digits ≠ [])
    (each : ∀ digit ∈ digits, digit.isDigit = true) (code rest : List Char) :
    Style.resume code (codeOf digits ++ rest) =
      codeOf digits ++
        ((if digits = ['0'] then code else []) ++
          Style.resume code rest) := by
  by_cases reset : digits = ['0']
  · subst reset
    rw [if_pos rfl]
    rfl
  · have clean : escape ∉ '[' :: (digits ++ ['m']) := by
      simp only [List.mem_cons, List.mem_append, not_or]
      exact
        ⟨by decide, fun digit => absurd (each escape digit) (by decide),
          by decide, List.not_mem_nil⟩
    rw [if_neg reset, List.nil_append, codeOf, List.cons_append,
      Style.resume, resume_append_of_not_mem clean]
    · rfl
    · -- Digits that go on as a reset does are the digit of a reset.
      intro behind _ same
      obtain ⟨digit, others, rfl⟩ := List.exists_cons_of_ne_nil inhabited
      obtain ⟨zero, later⟩ := List.cons.inj (List.cons.inj same).2
      subst zero
      cases others with
      | nil => exact reset rfl
      | cons next others =>
          obtain ⟨rfl, -⟩ := List.cons.inj later
          exact absurd (each 'm' (by simp)) (by decide)

/-- The digits of a style's code. -/
theorem digits_number (style : Style) :
    style.number ≠ [] ∧ ∀ digit ∈ style.number, digit.isDigit = true := by
  have digits : style.number.all Char.isDigit = true := by cases style <;> rfl
  exact ⟨by cases style <;> decide, List.all_eq_true.mp digits⟩

/-- Codes behind resets are codes in a text. -/
theorem Inked.resume
    {plain inked : List Char} (colored : Inked plain inked) (style : Style) :
    Inked plain (Style.resume style.code inked) := by
  induction colored with
  | nil => exact .nil
  | character other _ induction =>
      rw [resume_cons_of_ne other]
      exact .character other induction
  | code inhabited each _ induction =>
      rw [resume_codeOf inhabited each]
      refine .code inhabited each ?_
      split
      · exact .code (digits_number style).1 (digits_number style).2 induction
      · exact induction

/-- Painting a text with codes in it gives one with codes in it. -/
theorem Inked.paint
    {plain inked : List Char} (colored : Inked plain inked) (style : Style) :
    Inked plain
      (style.code ++ Style.resume style.code inked ++ Style.reset) := by
  obtain ⟨inhabited, each⟩ := digits_number style
  have closed : Inked [] (codeOf ['0'] ++ []) :=
    .code (by decide) (List.all_eq_true.mp rfl) .nil
  have whole :=
    (Inked.code inhabited each (colored.resume style)).append closed
  rwa [List.append_nil] at whole

/-! ## Lines -/

/-- A text, and the same text with codes in it. -/
def Inks (plain inked : String) : Prop :=
  Inked plain.toList inked.toList

theorem inks_of_not_mem {text : String} (clean : escape ∉ text.toList) :
    Inks text text :=
  .of_not_mem clean

theorem inks_of_printable {text : String} (printable : Printable text.toList) :
    Inks text text :=
  inks_of_not_mem (not_mem_of_printable printable (by decide))

theorem Inks.append
    {plain inked plainLater inkedLater : String} (first : Inks plain inked)
    (second : Inks plainLater inkedLater) :
    Inks (plain ++ plainLater) (inked ++ inkedLater) := by
  rw [Inks, String.toList_append, String.toList_append]
  exact Inked.append first second

section Lines

variable {ascii : Bool}

theorem Inks.paint
    {plain inked : String} (colored : Inks plain inked) (style : Style) :
    Inks (style.paint ⟨ascii, false⟩ plain)
      (style.paint ⟨ascii, true⟩ inked) := by
  have painted := Inked.paint colored style
  rw [Inks, Style.paint, Style.paint, if_neg (by simp), if_pos rfl,
    String.toList_ofList]
  exact painted

theorem inks_featureText {id : FeatureId} (lacks : id.Lacks escape) :
    Inks (featureText ⟨ascii, false⟩ id) (featureText ⟨ascii, true⟩ id) := by
  have title : Inks id.title id.title :=
    inks_of_not_mem (lacks id.title (by simp))
  have place : Inks (location id) (location id) :=
    inks_of_not_mem (not_mem_location lacks (by decide))
  have space : Inks " " " " := inks_of_printable (by decide)
  exact ((title.paint .info).append space).append (place.paint .dimmed)

/-- The line of an entry in colors is its plain line with codes in it. -/
theorem inks_entryLine
    {arena : Arena} (lacks : arena.Lacks escape) (drawn : DrawnEntry) :
    Inks (entryLine ⟨ascii, false⟩ arena drawn)
      (entryLine ⟨ascii, true⟩ arena drawn) := by
  rcases drawn with ⟨⟨place, relation, trail, isLast⟩, repeated⟩
  have space : Inks " " " " := inks_of_printable (by decide)
  have above : Inks "(see above)" "(see above)" :=
    inks_of_printable (by decide)
  have label :
      Inks (featureText ⟨ascii, false⟩ (arena.node place).feature)
        (featureText ⟨ascii, true⟩ (arena.node place).feature) :=
    inks_featureText (lacks.node place)
  have marker :
      Inks
        (if repeated then
          " " ++ Style.dimmed.paint ⟨ascii, false⟩ "(see above)" else "")
        (if repeated then
          " " ++ Style.dimmed.paint ⟨ascii, true⟩ "(see above)" else "") := by
    cases repeated with
    | false => exact Inked.nil
    | true => exact space.append (above.paint .dimmed)
  cases relation with
  | none =>
      have icon :=
        inks_of_printable
          (printable_glyphs ⟨ascii, false⟩ (Glyphs.of ⟨ascii, false⟩).root
            (by simp))
      exact
        ((((icon.paint .info).paint .bold).append space).append label).append
          marker
  | some relation =>
      have front :=
        inks_of_printable
          (printable_indentation ⟨ascii, false⟩
            ⟨place, some relation, trail, isLast⟩)
      have arrow := inks_of_printable (printable_arrow ⟨ascii, false⟩ relation)
      exact
        ((((front.paint .dimmed).append (arrow.paint .dimmed)).append
          space).append label).append marker

theorem inks_unlines
    {α : Type} {plain inked : α → String} {items : List α}
    (each : ∀ item ∈ items, Inks (plain item) (inked item)) :
    Inks (unlines (items.map plain)) (unlines (items.map inked)) := by
  have lineBreak : Inks "\n" "\n" := inks_of_not_mem (by decide)
  induction items with
  | nil => exact Inked.nil
  | cons item items induction =>
      obtain ⟨here, others⟩ := List.forall_mem_cons.mp each
      rw [List.map_cons, List.map_cons, unlines_cons, unlines_cons]
      exact (here.append lineBreak).append (induction others)

theorem inks_intercalate
    {α : Type} {plain inked : α → String} {items : List α} {separator : String}
    (clean : Inks separator separator)
    (each : ∀ item ∈ items, Inks (plain item) (inked item)) :
    Inks (separator.intercalate (items.map plain))
      (separator.intercalate (items.map inked)) := by
  induction items with
  | nil => exact Inked.nil
  | cons item items induction =>
      obtain ⟨here, others⟩ := List.forall_mem_cons.mp each
      cases items with
      | nil => simpa using here
      | cons next items =>
          have rest := induction others
          simp only [List.map_cons, String.intercalate_cons_cons] at rest ⊢
          exact (here.append clean).append rest

/-- The line of a conflict in colors is its plain line with codes in it. -/
theorem inks_conflictLine
    {conflict : Conflict} (lacks : conflict.Lacks escape) :
    Inks (conflictLine ⟨ascii, false⟩ conflict)
      (conflictLine ⟨ascii, true⟩ conflict) := by
  obtain ⟨signature, owner, ignored⟩ := lacks
  have fixed :
      ∀ text ∈ ["  ", " ", ", ", "owned by", "also declared by"],
        Inks text text := by
    intro text member
    refine inks_of_printable ?_
    revert text
    decide
  simp only [List.forall_mem_cons] at fixed
  obtain ⟨margin, space, comma, ownedBy, alsoBy, -⟩ := fixed
  have named := inks_of_not_mem signature
  exact
    ((((((((margin.append (named.paint .warning)).append space).append
      (ownedBy.paint .dimmed)).append space).append
        (inks_featureText owner)).append comma).append
          (alsoBy.paint .dimmed)).append space).append
            (inks_featureText ignored)

end Lines

/-! ## Whole texts -/

/-- A text without its codes. -/
def stripped (text : String) : String :=
  String.ofList (withoutCodes text.toList)

theorem Inks.stripped_eq {plain inked : String} (colored : Inks plain inked) :
    stripped inked = plain := by
  rw [stripped, Inked.withoutCodes_eq colored, String.ofList_toList]

/--
Graphs, forests and conflicts whose names have no escape character are shown
in colors as they are without, but for the codes; whichever glyphs are used.
-/
theorem colors_only_add_codes (ascii : Bool) :
    (∀ graph : FeatureGraph, graph.arena.Lacks escape →
      stripped (graphText ⟨ascii, true⟩ graph) =
        graphText ⟨ascii, false⟩ graph) ∧
      (∀ forest : Forest, forest.arena.Lacks escape →
        stripped (forestText ⟨ascii, true⟩ forest) =
          forestText ⟨ascii, false⟩ forest) ∧
        ∀ conflicts : List Conflict,
          (∀ conflict ∈ conflicts, conflict.Lacks escape) →
            stripped (unlines (conflictLines ⟨ascii, true⟩ conflicts)) =
              unlines (conflictLines ⟨ascii, false⟩ conflicts) := by
  refine ⟨fun graph lacks => ?graph, fun forest lacks => ?forest,
    fun conflicts lacks => ?conflicts⟩
  case graph =>
    exact (inks_unlines fun drawn _ => inks_entryLine lacks drawn).stripped_eq
  case forest =>
    have lineBreak : Inks "\n" "\n" := inks_of_not_mem (by decide)
    refine (inks_intercalate lineBreak fun entries _ => ?_).stripped_eq
    exact inks_unlines fun drawn _ => inks_entryLine lacks drawn
  case conflicts =>
    exact
      (inks_unlines fun conflict member =>
        inks_conflictLine (lacks conflict member)).stripped_eq

/-- Names that look like codes without their escape character. -/
def bracketedCatalog : List Feature :=
  [⟨⟨"[7m", "", "1;31m", "0"⟩, ["m", "36m"]⟩,
    ⟨⟨"[7m", "[0m", "m[0", "0"⟩, ["36m", "[2m"]⟩]

def bracketedLedger : Ledger :=
  .ofList [("m", ["[2m"])]

/-- The first of them depends on the other one. -/
def bracketedNodes : List GraphNode :=
  [⟨⟨"[7m", "", "1;31m", "0"⟩, [1], []⟩,
    ⟨⟨"[7m", "[0m", "m[0", "0"⟩, [], [0]⟩]

/-- The only conflict of the two. -/
def bracketedConflict : Conflict :=
  ⟨"36m", ⟨"[7m", "", "1;31m", "0"⟩, ⟨"[7m", "[0m", "m[0", "0"⟩⟩

theorem exists_bracketedGraph :
    ∃ relations graph,
      Relations.build .firstWins bracketedCatalog ⟨"[7m", "0"⟩
            bracketedLedger =
          .ok relations ∧
        relations.graph ⟨"[7m", "", "1;31m", "0"⟩ = .ok graph ∧
          graph.arena.nodes = bracketedNodes ∧
            (Forest.ofScopes [relations]).arena.nodes = bracketedNodes ∧
              relations.conflicts = [bracketedConflict] ∧
                graphText ⟨true, true⟩ graph ≠
                    graphText ⟨true, false⟩ graph ∧
                  graphText ⟨true, false⟩ graph =
                    "* 1;31m [[7m@0]\n" ++
                      "`-- -> m[0 [[7m/[0m@0]\n" ++
                        "    `-- <- 1;31m [[7m@0] (see above)\n" :=
  ⟨_, _, rfl, rfl, rfl, rfl, rfl, by decide, by decide⟩

/-- Brackets, digits and letters of names stay where the codes go. -/
theorem colors_only_add_codes_of_bracketed :
    ∃ relations graph,
      Relations.build .firstWins bracketedCatalog ⟨"[7m", "0"⟩
            bracketedLedger =
          .ok relations ∧
        relations.graph ⟨"[7m", "", "1;31m", "0"⟩ = .ok graph ∧
          graph.arena.Lacks escape ∧
            graphText ⟨true, true⟩ graph ≠ graphText ⟨true, false⟩ graph ∧
              stripped (graphText ⟨true, true⟩ graph) =
                  "* 1;31m [[7m@0]\n" ++
                    "`-- -> m[0 [[7m/[0m@0]\n" ++
                      "    `-- <- 1;31m [[7m@0] (see above)\n" ∧
                (Forest.ofScopes [relations]).arena.Lacks escape ∧
                  stripped
                      (forestText ⟨false, true⟩ (.ofScopes [relations])) =
                    forestText ⟨false, false⟩ (.ofScopes [relations]) ∧
                  bracketedConflict.Lacks escape ∧
                    stripped
                        (unlines
                          (conflictLines ⟨true, true⟩ relations.conflicts)) =
                      "  36m owned by 1;31m [[7m@0], " ++
                        "also declared by m[0 [[7m/[0m@0]\n" := by
  obtain ⟨relations, graph, built, answered, nodes, forestNodes, conflicts,
    colored, plain⟩ := exists_bracketedGraph
  have lacks : ∀ node ∈ bracketedNodes, node.feature.Lacks escape := by decide
  have graphLacks : graph.arena.Lacks escape := by
    rw [Arena.Lacks, nodes]
    exact lacks
  have forestLacks : (Forest.ofScopes [relations]).arena.Lacks escape := by
    rw [Arena.Lacks, forestNodes]
    exact lacks
  have conflictLacks : bracketedConflict.Lacks escape :=
    ⟨by decide, by decide, by decide⟩
  obtain ⟨ofGraph, -, ofConflicts⟩ := colors_only_add_codes true
  obtain ⟨-, ofForest, -⟩ := colors_only_add_codes false
  refine
    ⟨relations, graph, built, answered, graphLacks, colored,
      (ofGraph graph graphLacks).trans plain, forestLacks,
      ofForest _ forestLacks, conflictLacks, ?_⟩
  rw [conflicts, ofConflicts [bracketedConflict] (by simpa using conflictLacks)]
  decide

end Output

end FeatureAtlas
