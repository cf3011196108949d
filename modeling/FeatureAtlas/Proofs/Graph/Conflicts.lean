import FeatureAtlas.Proofs.Distinct
import FeatureAtlas.Proofs.Graph.Membership
import FeatureAtlas.Proofs.Graph.Ownership
import FeatureAtlas.Proofs.Table
import Mathlib.Data.Finset.Card
import Mathlib.Order.Bounds.Basic

/-!
# Owners and conflicts by position

A signature is owned at the least position at which it is declared.  Every
other position that declares it stands for one conflict, however often the
feature there repeats the declaration, and the conflicts come in the order of
positions and, for one position, of first declarations.  The walk through the
declarations lists them by marks: pairs of a signature and a position.
-/

namespace FeatureAtlas

/-- The signatures that the feature at a position declares. -/
def declaredAt (features : List Feature) (position : Nat) : List String :=
  ((features[position]?).map (·.signatures)).getD []

theorem declaredAt_of_getElem?
    {features : List Feature} {position : Nat} {feature : Feature}
    (located : features[position]? = some feature) :
    declaredAt features position = feature.signatures := by
  rw [declaredAt, located]
  rfl

theorem mem_declaredAt_iff
    {features : List Feature} {position : Nat} {signature : String} :
    signature ∈ declaredAt features position ↔
      ∃ feature,
        features[position]? = some feature ∧
          signature ∈ feature.signatures := by
  rw [declaredAt]
  cases features[position]? <;> simp

namespace Ownership

/-- The feature at the position of a mark declares a signature that an earlier one owns. -/
def Clashes
    (ownership : Ownership) (features : List Feature) (mark : Mark) : Prop :=
  mark.1 ∈ declaredAt features mark.2 ∧
    ∃ owner < mark.2, ownership.position? mark.1 = some owner

/-- Marks are ordered by position, then by the first place in the declarations there. -/
def Precedes (features : List Feature) (left right : Mark) : Prop :=
  left.2 < right.2 ∨
    left.2 = right.2 ∧
      (declaredAt features left.2).idxOf left.1 <
        (declaredAt features right.2).idxOf right.1

/-- The conflict of a mark: the feature that owns the signature, and the one at the position. -/
def conflictAt?
    (ownership : Ownership) (features : List Feature) (mark : Mark) :
    Option Conflict := do
  let position ← ownership.position? mark.1
  let owner ← features[position]?
  let ignored ← features[mark.2]?
  some ⟨mark.1, owner.id, ignored.id⟩

/-- What owners and conflicts tell of features and the order in which these stand. -/
structure Surveys (ownership : Ownership) (features : List Feature) : Prop where
  /-- A signature is owned at the least position that declares it. -/
  owned :
    ∀ signature position,
      ownership.position? signature = some position ↔
        IsLeast {place | signature ∈ declaredAt features place} position
  unowned :
    ∀ signature,
      ownership.position? signature = none ↔
        ∀ position, signature ∉ declaredAt features position
  size :
    ownership.size = (features.flatMap (·.signatures)).toFinset.card
  /-- There is one conflict for each clash, and they are in order. -/
  conflicts :
    ∃ marks : List Mark,
      (∀ mark, mark ∈ marks ↔ ownership.Clashes features mark) ∧
        marks.Pairwise (Precedes features) ∧
          ownership.conflicts.map some =
            marks.map (ownership.conflictAt? features)

/-! ## Owned positions -/

section Built

variable {policy : ConflictPolicy} {features : List Feature}
variable {ownership : Ownership}

theorem position?_eq_findIdx?
    (built : build policy features = .ok ownership) (signature : String) :
    ownership.position? signature =
      features.findIdx? fun feature => signature ∈ feature.signatures := by
  rw [position?, owners_build built, declarations, find?_declarations,
    Option.map_map, List.findIdx?_eq_fst_find?_zipIdx]
  rfl

theorem isLeast_of_position?
    (built : build policy features = .ok ownership)
    (signature : String) (position : Nat) :
    ownership.position? signature = some position ↔
      IsLeast {place | signature ∈ declaredAt features place} position := by
  rw [position?_eq_findIdx? built, List.findIdx?_eq_some_iff_getElem]
  constructor
  · rintro ⟨inside, declared, earlier⟩
    refine ⟨?_, ?_⟩
    · exact
        mem_declaredAt_iff.mpr
          ⟨_, List.getElem?_eq_getElem inside, of_decide_eq_true declared⟩
    · intro place member
      rcases mem_declaredAt_iff.mp member with ⟨feature, located, listed⟩
      rcases List.getElem?_eq_some_iff.mp located with ⟨there, rfl⟩
      by_contra before
      exact earlier place (Nat.not_le.mp before) (decide_eq_true listed)
  · rintro ⟨member, least⟩
    rcases mem_declaredAt_iff.mp member with ⟨feature, located, listed⟩
    rcases List.getElem?_eq_some_iff.mp located with ⟨inside, rfl⟩
    refine ⟨inside, decide_eq_true listed, ?_⟩
    intro place before declared
    have there : place < features.length := Nat.lt_trans before inside
    have standing : signature ∈ declaredAt features place :=
      mem_declaredAt_iff.mpr
        ⟨_, List.getElem?_eq_getElem there, of_decide_eq_true declared⟩
    exact Nat.not_le.mpr before (least standing)

theorem position?_eq_none_iff
    (built : build policy features = .ok ownership) (signature : String) :
    ownership.position? signature = none ↔
      ∀ position, signature ∉ declaredAt features position := by
  rw [position?_eq_findIdx? built, List.findIdx?_eq_none_iff]
  constructor
  · intro undeclared position member
    rcases mem_declaredAt_iff.mp member with ⟨feature, located, listed⟩
    have passed := undeclared feature (List.mem_of_getElem? located)
    exact of_decide_eq_false passed listed
  · intro undeclared feature member
    obtain ⟨position, located⟩ := List.mem_iff_getElem?.mp member
    apply decide_eq_false
    intro listed
    exact
      undeclared position (mem_declaredAt_iff.mpr ⟨feature, located, listed⟩)

/-- An owner is the feature at its position. -/
theorem exists_feature_of_owner
    (built : build policy features = .ok ownership)
    {signature : String} {owner : Owner}
    (held : ownership.owners.get? signature = some owner) :
    ∃ feature,
      features[owner.position]? = some feature ∧ feature.id = owner.id := by
  rw [owners_build built, Option.map_eq_some_iff] at held
  rcases held with ⟨declaration, found, rfl⟩
  obtain ⟨feature, located, same, -⟩ :=
    exists_of_mem_declarations (List.mem_of_find?_eq_some found)
  exact ⟨feature, located, same⟩

end Built

/-! ## Owned signatures -/

theorem keys_declare
    {policy : ConflictPolicy} {ownership next : Ownership}
    {declaration : Declaration}
    (declared : declare policy ownership declaration = .ok next) :
    next.owners.keys =
      Distinct.add ownership.owners.keys declaration.signature := by
  rcases declare_eq_ok declared with ⟨-, rfl⟩ | ⟨owner, held, outcome⟩
  · exact Table.keys_alter _ _ _
  · have known : declaration.signature ∈ ownership.owners.keys := by
      rw [Table.mem_keys_iff, held]
      rfl
    rw [Distinct.add, if_pos known]
    rcases outcome with ⟨-, rfl⟩ | ⟨-, -, rfl⟩
    · rfl
    · rfl

/-- The walk keeps the declared signatures as keys, each at its first mention. -/
theorem keys_foldlM
    {policy : ConflictPolicy} (later : List Declaration)
    {ownership final : Ownership}
    (declared : later.foldlM (declare policy) ownership = .ok final) :
    final.owners.keys =
      Distinct.addAll ownership.owners.keys (later.map (·.signature)) := by
  induction later generalizing ownership with
  | nil =>
      cases declared
      rfl
  | cons declaration later induction =>
      rw [List.foldlM_cons] at declared
      cases step : declare policy ownership declaration with
      | error problem =>
          rw [step] at declared
          cases declared
      | ok next =>
          rw [step] at declared
          rw [induction declared, keys_declare step, List.map_cons,
            Distinct.addAll_cons]

theorem map_signature_declarations (features : List Feature) :
    (declarations features).map (·.signature) =
      features.flatMap (·.signatures) := by
  have signatures (entry : Feature × Nat) :
      (entry.1.signatures.map fun signature =>
          (⟨⟨entry.2, entry.1.id⟩, signature⟩ : Declaration)).map
          (·.signature) =
        entry.1.signatures := by
    rw [List.map_map]
    exact List.map_id _
  conv_rhs => rw [← List.zipIdx_map_fst 0 features, List.flatMap_map]
  rw [declarations, List.map_flatMap]
  simp only [signatures]

/-- As many signatures are owned as different ones are declared. -/
theorem size_build
    {policy : ConflictPolicy} {features : List Feature}
    {ownership : Ownership}
    (built : build policy features = .ok ownership) :
    ownership.size = (features.flatMap (·.signatures)).toFinset.card := by
  have keys :
      ownership.owners.keys =
        Distinct.ofList (features.flatMap (·.signatures)) := by
    rw [keys_foldlM _ built, map_signature_declarations]
    rfl
  have same :
      (features.flatMap (·.signatures)).toFinset =
        (Distinct.ofList (features.flatMap (·.signatures))).toFinset := by
    ext signature
    rw [List.mem_toFinset, List.mem_toFinset, Distinct.mem_ofList]
  rw [same, List.toFinset_card_of_nodup (Distinct.nodup_ofList _), ← keys]
  exact (List.length_map _).symm

/-! ## Marks -/

/-- Another feature than the declarer owns the declared signature. -/
def contests (ownership : Ownership) (declaration : Declaration) : Bool :=
  ownership.position? declaration.signature ≠
    some declaration.declarer.position

section Walk

variable {ownership next final : Ownership} {declaration : Declaration}

/-- One declaration marks its position if it is contested and not yet marked. -/
theorem reported_declare
    (declared : declare .firstWins ownership declaration = .ok next)
    (kept :
      ∀ owner,
        next.owners.get? declaration.signature = some owner →
          final.owners.get? declaration.signature = some owner) :
    next.reported.reverse =
      if final.contests declaration then
        Distinct.add ownership.reported.reverse declaration.mark
      else ownership.reported.reverse := by
  have contests_iff {owner : Owner}
      (held : next.owners.get? declaration.signature = some owner) :
      final.contests declaration = true ↔
        owner.position ≠ declaration.declarer.position := by
    simp [contests, position?, kept owner held]
  rcases declare_eq_ok declared with
    ⟨-, rfl⟩ | ⟨owner, held, ⟨passed, rfl⟩ | ⟨other, unmarked, rfl⟩⟩
  · -- Who declares a signature first owns it and does not contest it.
    have held :
        (ownership.owners.insert declaration.signature
              declaration.declarer).get? declaration.signature =
          some declaration.declarer := by
      rw [Table.get?_insert, if_pos rfl]
    rw [if_neg (mt (contests_iff held).mp (not_not_intro rfl))]
  · by_cases contested : final.contests declaration = true
    · have marked :=
        passed.resolve_left ((contests_iff held).mp contested)
      rw [if_pos contested, Distinct.add,
        if_pos (List.mem_reverse.mpr marked)]
    · rw [if_neg contested]
  · rw [if_pos ((contests_iff held).mpr other), Distinct.add,
      if_neg (mt List.mem_reverse.mp unmarked), List.reverse_cons]

/-- The walk marks the contested declarations, each mark at its first mention. -/
theorem reported_foldlM
    (later : List Declaration)
    (declared : later.foldlM (declare .firstWins) ownership = .ok final) :
    final.reported.reverse =
      Distinct.addAll ownership.reported.reverse
        ((later.filter final.contests).map Declaration.mark) := by
  induction later generalizing ownership with
  | nil =>
      cases declared
      rfl
  | cons declaration later induction =>
      rw [List.foldlM_cons] at declared
      cases step : declare .firstWins ownership declaration with
      | error problem =>
          rw [step] at declared
          cases declared
      | ok next =>
          rw [step] at declared
          have marked := reported_declare step fun _ => owner_kept declared
          rw [induction declared, marked, List.filter_cons]
          by_cases contested : final.contests declaration = true
          · rw [if_pos contested, if_pos contested, List.map_cons,
              Distinct.addAll_cons]
          · rw [if_neg contested, if_neg contested]

/-- Each mark so far stands for a conflict that is listed. -/
def Listed
    (final : Ownership) (features : List Feature) (ownership : Ownership) :
    Prop :=
  ownership.conflicts.map some =
    ownership.reported.reverse.map (final.conflictAt? features)

/-- A mark is made together with the conflict that it stands for. -/
theorem Listed.declare
    {features : List Feature} (listed : Listed final features ownership)
    (built : build .firstWins features = .ok final)
    (member : declaration ∈ declarations features)
    (declared : declare .firstWins ownership declaration = .ok next)
    (kept :
      ∀ owner,
        next.owners.get? declaration.signature = some owner →
          final.owners.get? declaration.signature = some owner) :
    Listed final features next := by
  rcases declare_eq_ok declared with
    ⟨-, rfl⟩ | ⟨owner, held, ⟨-, rfl⟩ | ⟨-, -, rfl⟩⟩
  · exact listed
  · exact listed
  · have owned := kept owner held
    obtain ⟨feature, located, same⟩ := exists_feature_of_owner built owned
    obtain ⟨ignored, there, identity, -⟩ :=
      exists_of_mem_declarations member
    have conflict :
        final.conflictAt? features declaration.mark =
          some
            ⟨declaration.signature, owner.id, declaration.declarer.id⟩ := by
      simp [conflictAt?, Declaration.mark, position?, owned, located,
        there, same, identity]
    rw [Listed, List.map_append, List.reverse_cons, List.map_append, listed,
      List.map_singleton, List.map_singleton]
    exact congrArg (_ ++ [·]) conflict.symm

theorem Listed.foldlM
    {features : List Feature} {later : List Declaration}
    (listed : Listed final features ownership)
    (built : build .firstWins features = .ok final)
    (within : ∀ declaration ∈ later, declaration ∈ declarations features)
    (declared :
      later.foldlM (Ownership.declare .firstWins) ownership = .ok final) :
    Listed final features final := by
  induction later generalizing ownership with
  | nil =>
      cases declared
      exact listed
  | cons declaration later induction =>
      rcases List.forall_mem_cons.mp within with ⟨here, others⟩
      rw [List.foldlM_cons] at declared
      cases step : Ownership.declare .firstWins ownership declaration with
      | error problem =>
          rw [step] at declared
          cases declared
      | ok next =>
          rw [step] at declared
          exact
            induction
              (listed.declare built here step fun _ => owner_kept declared)
              others declared

end Walk

/-! ## Clashes -/

/-- The marks of all clashes: position by position the contested declarations. -/
def clashes (ownership : Ownership) (features : List Feature) : List Mark :=
  features.zipIdx.flatMap fun entry =>
    ((Distinct.ofList entry.1.signatures).filter fun signature =>
        ownership.position? signature ≠ some entry.2).map
      fun signature => (signature, entry.2)

/-- The marks of the walk are those of the clashes, in their order. -/
theorem ofList_marks (ownership : Ownership) (features : List Feature) :
    Distinct.ofList
        (((declarations features).filter ownership.contests).map
          Declaration.mark) =
      ownership.clashes features := by
  have marks :
      ((declarations features).filter ownership.contests).map
          Declaration.mark =
        features.zipIdx.flatMap fun entry =>
          (entry.1.signatures.filter fun signature =>
              ownership.position? signature ≠ some entry.2).map
            fun signature => (signature, entry.2) := by
    simp only [declarations, List.filter_flatMap, List.map_flatMap,
      List.filter_map, List.map_map]
    rfl
  rw [marks, Distinct.ofList_flatMap, clashes]
  · congr 1
    funext entry
    rw [← Distinct.map_ofList, Distinct.filter_ofList]
    intro left _ right _ same
    exact congrArg Prod.fst same
  · refine (Membership.pairwise_zipIdx features).imp ?_
    intro left right before mark member again
    rcases List.mem_map.mp member with ⟨signature, -, rfl⟩
    rcases List.mem_map.mp again with ⟨other, -, same⟩
    exact Nat.ne_of_gt before (Prod.mk.inj same).2

section Built

variable {features : List Feature} {ownership : Ownership}

theorem mem_clashes_iff
    (built : build .firstWins features = .ok ownership) (mark : Mark) :
    mark ∈ ownership.clashes features ↔ ownership.Clashes features mark := by
  rcases mark with ⟨signature, position⟩
  simp only [clashes, List.mem_flatMap, List.mem_map, List.mem_filter,
    Distinct.mem_ofList, decide_eq_true_eq, Prod.mk.injEq]
  constructor
  · rintro ⟨⟨feature, place⟩, entry, found, ⟨listed, contested⟩, rfl, rfl⟩
    have located := List.mem_zipIdx_iff_getElem?.mp entry
    have declared : found ∈ declaredAt features place :=
      mem_declaredAt_iff.mpr ⟨feature, located, listed⟩
    refine ⟨declared, ?_⟩
    cases owned : ownership.position? found with
    | none =>
        exact
          absurd declared ((position?_eq_none_iff built found).mp owned place)
    | some owner =>
        have least := (isLeast_of_position? built found owner).mp owned
        refine ⟨owner, Nat.lt_of_le_of_ne (least.2 declared) ?_, rfl⟩
        rintro rfl
        exact contested owned
  · rintro ⟨declared, owner, before, owned⟩
    rcases mem_declaredAt_iff.mp declared with ⟨feature, located, listed⟩
    refine
      ⟨(feature, position), List.mem_zipIdx_iff_getElem?.mpr located,
        signature, ⟨listed, ?_⟩, rfl, rfl⟩
    rw [owned]
    intro same
    exact Nat.ne_of_lt before (Option.some.inj same)

/-- Clashes come in the order of positions and of first declarations. -/
theorem pairwise_clashes (ownership : Ownership) (features : List Feature) :
    (ownership.clashes features).Pairwise (Precedes features) := by
  apply List.pairwise_flatMap.mpr
  constructor
  · rintro ⟨feature, position⟩ entry
    have here := declaredAt_of_getElem? (List.mem_zipIdx_iff_getElem?.mp entry)
    apply List.pairwise_map.mpr
    refine
      ((Distinct.pairwise_idxOf_ofList feature.signatures).sublist
        List.filter_sublist).imp ?_
    intro left right before
    refine Or.inr ⟨rfl, ?_⟩
    rw [here]
    exact before
  · refine (Membership.pairwise_zipIdx features).imp ?_
    intro left right before mark member other otherMember
    rcases List.mem_map.mp member with ⟨-, -, rfl⟩
    rcases List.mem_map.mp otherMember with ⟨-, -, rfl⟩
    exact Or.inl before

/-- The listed conflicts are those that the clashes stand for. -/
theorem map_some_conflicts
    (built : build .firstWins features = .ok ownership) :
    ownership.conflicts.map some =
      (ownership.clashes features).map (ownership.conflictAt? features) := by
  have listed : Listed ownership features .empty := rfl
  have marked := reported_foldlM _ built
  rw [← ofList_marks]
  exact
    (listed.foldlM built (fun _ => id) built).trans
      (congrArg (List.map _) marked)

/-- Conflicts are listed if two positions declare the same signature. -/
theorem conflicts_ne_nil_iff
    (built : build .firstWins features = .ok ownership) :
    ownership.conflicts ≠ [] ↔
      ∃ signature left right,
        left < right ∧
          signature ∈ declaredAt features left ∧
            signature ∈ declaredAt features right := by
  have counted :
      ownership.conflicts = [] ↔ ownership.clashes features = [] := by
    rw [← List.map_eq_nil_iff (f := some), map_some_conflicts built,
      List.map_eq_nil_iff]
  rw [ne_eq, counted, List.eq_nil_iff_forall_not_mem, not_forall]
  simp only [not_not, mem_clashes_iff built]
  constructor
  · rintro ⟨⟨signature, position⟩, declared, owner, before, owned⟩
    have least := (isLeast_of_position? built signature owner).mp owned
    exact ⟨signature, owner, position, before, least.1, declared⟩
  · rintro ⟨signature, left, right, before, first, second⟩
    refine ⟨(signature, right), second, ?_⟩
    cases owned : ownership.position? signature with
    | none =>
        exact
          absurd first ((position?_eq_none_iff built signature).mp owned left)
    | some owner =>
        have least := (isLeast_of_position? built signature owner).mp owned
        exact ⟨owner, Nat.lt_of_le_of_lt (least.2 first) before, rfl⟩

end Built

/--
Whatever features there are, with whatever repeats, the owners and conflicts
among them are told by the positions of their declarations.
-/
theorem build_surveys (features : List Feature) :
    ∃ ownership,
      build .firstWins features = .ok ownership ∧
        ownership.Surveys features := by
  rcases exists_build_firstWins features with ⟨ownership, built⟩
  refine
    ⟨ownership, built,
      { owned := isLeast_of_position? built
        unowned := position?_eq_none_iff built
        size := size_build built
        conflicts := ⟨ownership.clashes features, ?_⟩ }⟩
  exact
    ⟨mem_clashes_iff built, pairwise_clashes ownership features,
      map_some_conflicts built⟩

/-- A signature that is repeated by its owner, and again where it is not owned. -/
example :
    (build .firstWins
        [⟨⟨"Shop", "", "Cart", "1"⟩, ["sum", "add", "sum"]⟩,
          ⟨⟨"Shop", "", "Total", "1"⟩, ["add", "sum", "add"]⟩]).map
      (fun ownership =>
        (ownership.position? "sum", ownership.size, ownership.conflicts)) =
      .ok
        (some 0, 2,
          [⟨"add", ⟨"Shop", "", "Cart", "1"⟩, ⟨"Shop", "", "Total", "1"⟩⟩,
            ⟨"sum", ⟨"Shop", "", "Cart", "1"⟩,
              ⟨"Shop", "", "Total", "1"⟩⟩]) := by
  decide

end Ownership

end FeatureAtlas
