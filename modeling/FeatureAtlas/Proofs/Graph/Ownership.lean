import FeatureAtlas.Graph.Ownership
import Mathlib.Data.List.Basic

/-!
# Owners are first declarers

Building the owners walks the declarations once.  Whatever the policy, a walk
that succeeds leaves each signature with the declarer of its first
declaration; so owners are always among the features that were searched.  A
walk that only lists conflicts always succeeds.
-/

namespace FeatureAtlas

/-- A signature and the position of a feature that declares it. -/
abbrev Mark := String × Nat

def Declaration.mark (declaration : Declaration) : Mark :=
  (declaration.signature, declaration.declarer.position)

namespace Ownership

/-- A declaration stands in the list of the feature at its position. -/
theorem exists_of_mem_declarations
    {features : List Feature} {declaration : Declaration}
    (member : declaration ∈ declarations features) :
    ∃ feature,
      features[declaration.declarer.position]? = some feature ∧
        feature.id = declaration.declarer.id ∧
          declaration.signature ∈ feature.signatures := by
  simp only [declarations, List.mem_flatMap, List.mem_map] at member
  rcases member with ⟨⟨feature, position⟩, entry, signature, listed, rfl⟩
  refine ⟨feature, ?_, rfl, listed⟩
  simpa using List.mem_zipIdx_iff_getElem?.mp entry

/--
All that a declaration can do: it makes its declarer the owner of a new
signature, it changes nothing, or it lists a conflict with the owner.
-/
theorem declare_eq_ok
    {policy : ConflictPolicy} {ownership next : Ownership}
    {declaration : Declaration}
    (declared : declare policy ownership declaration = .ok next) :
    ownership.owners.get? declaration.signature = none ∧
        next =
          { ownership with
            owners :=
              ownership.owners.insert declaration.signature
                declaration.declarer } ∨
      ∃ owner,
        ownership.owners.get? declaration.signature = some owner ∧
          ((owner.position = declaration.declarer.position ∨
                declaration.mark ∈ ownership.reported) ∧
              next = ownership ∨
            owner.position ≠ declaration.declarer.position ∧
              declaration.mark ∉ ownership.reported ∧
                next =
                  { ownership with
                    conflicts :=
                      ownership.conflicts ++
                        [⟨declaration.signature, owner.id,
                          declaration.declarer.id⟩]
                    reported := declaration.mark :: ownership.reported }) := by
  unfold declare at declared
  cases held : ownership.owners.get? declaration.signature with
  | none =>
      simp only [held, Except.ok.injEq] at declared
      exact Or.inl ⟨rfl, declared.symm⟩
  | some owner =>
      refine Or.inr ⟨owner, rfl, ?_⟩
      simp only [held] at declared
      split at declared
      · rename_i passed
        cases declared
        exact Or.inl ⟨passed, rfl⟩
      · rename_i clashing
        cases policy with
        | firstWins =>
            cases declared
            exact
              Or.inr
                ⟨(not_or.mp clashing).1, (not_or.mp clashing).2, rfl⟩
        | reject => cases declared

/-- One declaration gives an owner to its signature if it has none. -/
theorem owners_declare
    {policy : ConflictPolicy} {ownership next : Ownership}
    {declaration : Declaration}
    (declared : declare policy ownership declaration = .ok next)
    (signature : String) :
    next.owners.get? signature =
      (ownership.owners.get? signature).or
        (if declaration.signature = signature then
          some declaration.declarer
        else none) := by
  rcases declare_eq_ok declared with
    ⟨missing, rfl⟩ | ⟨owner, held, ⟨-, rfl⟩ | ⟨-, -, rfl⟩⟩
  · rw [Table.get?_insert]
    by_cases same : declaration.signature = signature
    · subst same
      simp [missing]
    · simp [same]
  all_goals
    by_cases same : declaration.signature = signature
    · subst same
      simp [held]
    · simp [same]

theorem owners_foldlM
    {policy : ConflictPolicy} (later : List Declaration)
    {ownership final : Ownership}
    (declared : later.foldlM (declare policy) ownership = .ok final)
    (signature : String) :
    final.owners.get? signature =
      (ownership.owners.get? signature).or
        ((later.find? fun declaration =>
          declaration.signature = signature).map (·.declarer)) := by
  induction later generalizing ownership with
  | nil =>
      cases declared
      simp
  | cons declaration later induction =>
      rw [List.foldlM_cons] at declared
      cases step : declare policy ownership declaration with
      | error problem =>
          rw [step] at declared
          cases declared
      | ok next =>
          rw [step] at declared
          rw [induction declared, owners_declare step, Option.or_assoc]
          by_cases same : declaration.signature = signature <;>
            simp [same]

/-- Who owns a signature keeps it. -/
theorem owner_kept
    {policy : ConflictPolicy} {later : List Declaration}
    {ownership final : Ownership}
    (declared : later.foldlM (declare policy) ownership = .ok final)
    {signature : String} {owner : Owner}
    (held : ownership.owners.get? signature = some owner) :
    final.owners.get? signature = some owner := by
  rw [owners_foldlM later declared, held, Option.some_or]

/-- The owner of a signature is the declarer of its first declaration. -/
theorem owners_build
    {policy : ConflictPolicy} {features : List Feature}
    {ownership : Ownership}
    (built : build policy features = .ok ownership)
    (signature : String) :
    ownership.owners.get? signature =
      ((declarations features).find? fun declaration =>
        declaration.signature = signature).map (·.declarer) := by
  rw [owners_foldlM (declarations features) built signature]
  simp [empty]

/-- Owners are among the features that were searched. -/
theorem position?_lt
    {policy : ConflictPolicy} {features : List Feature}
    {ownership : Ownership}
    (built : build policy features = .ok ownership)
    {signature : String} {position : Nat}
    (owned : ownership.position? signature = some position) :
    position < features.length := by
  rw [position?, owners_build built, Option.map_map,
    Option.map_eq_some_iff] at owned
  rcases owned with ⟨declaration, found, rfl⟩
  obtain ⟨feature, located, -, -⟩ :=
    exists_of_mem_declarations (List.mem_of_find?_eq_some found)
  exact (List.getElem?_eq_some_iff.mp located).1

/-! ## Conflicts under both policies -/

/--
A declaration makes no conflict, whatever the policy, or it makes one that is
listed or reported.
-/
theorem declare_cases (ownership : Ownership) (declaration : Declaration) :
    (∃ next,
        next.conflicts = ownership.conflicts ∧
          ∀ policy, declare policy ownership declaration = .ok next) ∨
      ∃ next conflict,
        next.conflicts = ownership.conflicts ++ [conflict] ∧
          declare .firstWins ownership declaration = .ok next ∧
            declare .reject ownership declaration =
              .error
                (.ambiguousOwner conflict.signature conflict.owner
                  conflict.ignored) := by
  cases held : ownership.owners.get? declaration.signature with
  | none =>
      refine
        Or.inl
          ⟨{ ownership with
              owners :=
                ownership.owners.insert declaration.signature
                  declaration.declarer },
            rfl, fun policy => ?_⟩
      simp only [declare, held]
  | some owner =>
      by_cases passed :
          owner.position = declaration.declarer.position ∨
            (declaration.signature, declaration.declarer.position) ∈
              ownership.reported
      · refine Or.inl ⟨ownership, rfl, fun policy => ?_⟩
        simp only [declare, held, if_pos passed]
      · refine
          Or.inr
            ⟨{ ownership with
                conflicts :=
                  ownership.conflicts ++
                    [⟨declaration.signature, owner.id,
                      declaration.declarer.id⟩]
                reported :=
                  (declaration.signature, declaration.declarer.position) ::
                    ownership.reported },
              ⟨declaration.signature, owner.id, declaration.declarer.id⟩,
              rfl, ?_, ?_⟩
        · simp only [declare, held, if_neg passed]
        · simp only [declare, held, if_neg passed]

/--
Where conflicts are only listed, no declaration ends the search, and the list
grows at its end.
-/
theorem foldlM_firstWins
    (later : List Declaration) (ownership : Ownership) :
    ∃ final,
      later.foldlM (declare .firstWins) ownership = .ok final ∧
        ownership.conflicts <+: final.conflicts := by
  induction later generalizing ownership with
  | nil => exact ⟨ownership, rfl, List.prefix_refl _⟩
  | cons declaration later induction =>
      rw [List.foldlM_cons]
      rcases declare_cases ownership declaration with
        ⟨next, same, declared⟩ | ⟨next, conflict, listed, declared, -⟩
      · rcases induction next with ⟨final, following, grown⟩
        rw [declared .firstWins]
        exact ⟨final, following, same ▸ grown⟩
      · rcases induction next with ⟨final, following, grown⟩
        rw [declared]
        rw [listed] at grown
        exact ⟨final, following, (List.prefix_append _ _).trans grown⟩

theorem exists_build_firstWins (features : List Feature) :
    ∃ ownership, build .firstWins features = .ok ownership := by
  rcases foldlM_firstWins (declarations features) empty with
    ⟨ownership, built, -⟩
  exact ⟨ownership, built⟩

/-! ## The first declarer -/

/-- The first of several features that declares a signature. -/
def firstDeclarer? (features : List Feature) (signature : String) : Option Feature :=
  features.find? fun feature => signature ∈ feature.signatures

/-- A signature is found in a list that has it. -/
theorem find?_eq_self
    {signatures : List String} {signature : String}
    (listed : signature ∈ signatures) :
    (signatures.find? fun other => other = signature) = some signature := by
  cases found : signatures.find? fun other => other = signature with
  | none =>
      rw [List.find?_eq_none] at found
      exact absurd (decide_eq_true rfl) (found signature listed)
  | some other =>
      have same := List.find?_some found
      rw [of_decide_eq_true same]

/-- The first declaration of a signature is made by the first feature that declares it. -/
theorem find?_declarations
    (entries : List (Feature × Nat)) (signature : String) :
    ((entries.flatMap fun (feature, position) =>
          feature.signatures.map fun signature =>
            (⟨⟨position, feature.id⟩, signature⟩ : Declaration)).find?
        fun declaration => declaration.signature = signature).map
        (·.declarer) =
      (entries.find? fun entry => signature ∈ entry.1.signatures).map
        fun entry => ⟨entry.2, entry.1.id⟩ := by
  induction entries with
  | nil => rfl
  | cons entry entries induction =>
      rw [List.flatMap_cons, List.find?_append, Option.map_or, induction,
        List.find?_map, Option.map_map, List.find?_cons]
      by_cases listed : signature ∈ entry.1.signatures
      · have first := find?_eq_self listed
        simp only [Function.comp_def, first, listed, decide_true,
          Option.map_some, Option.some_or]
      · have none :
            (entry.1.signatures.find? fun other => other = signature) =
              none := by
          rw [List.find?_eq_none]
          intro other member same
          exact listed (of_decide_eq_true same ▸ member)
        simp only [Function.comp_def, none, listed, decide_false,
          Option.map_none, Option.none_or]

/-- The owner of a signature is the first feature that declares it. -/
theorem feature?_position?
    {policy : ConflictPolicy} {features : List Feature}
    {ownership : Ownership}
    (built : build policy features = .ok ownership)
    (signature : String) :
    ((ownership.position? signature).bind fun position =>
        features[position]?) =
      firstDeclarer? features signature := by
  have entries :
      firstDeclarer? features signature =
        (features.zipIdx.find? fun entry =>
          signature ∈ entry.1.signatures).map (·.1) := by
    conv_lhs => rw [← List.zipIdx_map_fst 0 features]
    rw [firstDeclarer?, List.find?_map]
    rfl
  rw [position?, owners_build built, declarations, find?_declarations,
    Option.map_map, entries]
  cases found :
      features.zipIdx.find? fun entry => signature ∈ entry.1.signatures with
  | none => rfl
  | some entry =>
      exact
        List.mem_zipIdx_iff_getElem?.mp (List.mem_of_find?_eq_some found)

end Ownership

end FeatureAtlas
