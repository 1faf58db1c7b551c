import PatternMachine.Proofs.Pattern.Shape

/-!
# Fixed points of normalising

A pattern is normal when no star in it has a star for its body, whatever groups of one item stand
between the two. What a bare repetition encloses does not count, since normalising leaves it as it
is. One pass from the inside out comes to a normal pattern, and just the normal ones stay as they
are.
-/

namespace PatternMachine

namespace Pattern

variable {pattern item first second body : Pattern} {rest : List Pattern}
  {quantifier : Quantifier}

/-! ## Normal patterns -/

/-- A star inside any number of one-item groups. -/
inductive GroupedStar : Pattern → Prop where
  | star (body : Pattern) : GroupedStar (.repetition .zeroOrMore body)
  | group {item : Pattern} (inner : GroupedStar item) : GroupedStar (.sequence [item])

mutual

/-- A tree and the trees in it that no bare repetition encloses, each before its parts. -/
def openNodes : Pattern → List Pattern
  | .sequence items => .sequence items :: openNodesOf items
  | .alternative first second =>
      .alternative first second :: (first.openNodes ++ second.openNodes)
  | .repetition quantifier body =>
      .repetition quantifier body :: if quantifier = .unspecified then [] else body.openNodes
  | leaf => [leaf]

def openNodesOf : List Pattern → List Pattern
  | [] => []
  | item :: rest => item.openNodes ++ openNodesOf rest

end

theorem openNodes_sequence (items : List Pattern) :
    (sequence items).openNodes = sequence items :: openNodesOf items :=
  rfl

theorem openNodesOf_cons (item : Pattern) (rest : List Pattern) :
    openNodesOf (item :: rest) = item.openNodes ++ openNodesOf rest :=
  rfl

theorem openNodes_alternative (first second : Pattern) :
    (alternative first second).openNodes =
      alternative first second :: (first.openNodes ++ second.openNodes) :=
  rfl

theorem openNodes_repetition (quantifier : Quantifier) (body : Pattern) :
    (repetition quantifier body).openNodes =
      repetition quantifier body :: if quantifier = .unspecified then [] else body.openNodes :=
  rfl

def IsDoubleStar (pattern : Pattern) : Prop :=
  ∃ body, pattern = .repetition .zeroOrMore body ∧ GroupedStar body

/-- No star outside bare repetitions is around a star. -/
def IsNormal (pattern : Pattern) : Prop :=
  ∀ node ∈ pattern.openNodes, ¬ node.IsDoubleStar

theorem groupedStar_iff :
    GroupedStar pattern ↔ ∃ inner, pattern.ungrouped = .repetition .zeroOrMore inner := by
  constructor
  · intro grouped
    induction grouped with
    | star body => exact ⟨body, rfl⟩
    | group _ ih => exact ih
  · rintro ⟨inner, same⟩
    fun_induction ungrouped pattern with
    | case1 item ih => exact .group (ih same)
    | case2 pattern =>
        subst same
        exact .star inner

theorem star_of_groupedStar (grouped : GroupedStar body) : body.star = body.ungrouped := by
  obtain ⟨inner, same⟩ := groupedStar_iff.mp grouped
  unfold star
  rw [same]

theorem star_of_not_groupedStar (single : ¬ GroupedStar body) :
    body.star = .repetition .zeroOrMore body := by
  rcases star_cases body with ⟨inner, same, -⟩ | kept
  · exact absurd (groupedStar_iff.mpr ⟨inner, same⟩) single
  · exact kept

theorem isDoubleStar_repetition_iff :
    (repetition quantifier body).IsDoubleStar ↔ quantifier = .zeroOrMore ∧ GroupedStar body := by
  constructor
  · rintro ⟨_, ⟨⟩, grouped⟩
    exact ⟨rfl, grouped⟩
  · rintro ⟨rfl, grouped⟩
    exact ⟨body, rfl, grouped⟩

theorem not_isDoubleStar_of_ne (other : ∀ body, pattern ≠ .repetition .zeroOrMore body) :
    ¬ pattern.IsDoubleStar := by
  rintro ⟨body, same, -⟩
  exact other body same

namespace IsNormal

theorem leaf (alone : pattern.openNodes = [pattern])
    (other : ∀ body, pattern ≠ .repetition .zeroOrMore body) : pattern.IsNormal := by
  intro node mem
  rw [alone] at mem
  obtain rfl := List.mem_singleton.mp mem
  exact not_isDoubleStar_of_ne other

theorem nil : (sequence []).IsNormal :=
  .leaf rfl nofun

theorem cons_iff :
    (sequence (item :: rest)).IsNormal ↔ item.IsNormal ∧ (sequence rest).IsNormal := by
  have root (items : List Pattern) : ¬ (sequence items).IsDoubleStar :=
    not_isDoubleStar_of_ne nofun
  simp only [IsNormal, openNodes_sequence, openNodesOf_cons, List.forall_mem_cons,
    List.forall_mem_append, root, not_false_eq_true, true_and]

theorem alternative_iff :
    (alternative first second).IsNormal ↔ first.IsNormal ∧ second.IsNormal := by
  have root : ¬ (alternative first second).IsDoubleStar := not_isDoubleStar_of_ne nofun
  simp only [IsNormal, openNodes_alternative, List.forall_mem_cons, List.forall_mem_append, root,
    not_false_eq_true, true_and]

theorem repetition_iff :
    (repetition quantifier body).IsNormal ↔
      (quantifier = .zeroOrMore → ¬ GroupedStar body) ∧
        (quantifier ≠ .unspecified → body.IsNormal) := by
  cases quantifier <;> simp [IsNormal, openNodes_repetition, isDoubleStar_repetition_iff]

theorem ungrouped (normal : pattern.IsNormal) : pattern.ungrouped.IsNormal := by
  fun_induction Pattern.ungrouped pattern with
  | case1 item ih => exact ih (cons_iff.mp normal).1
  | case2 pattern => exact normal

/-- A star of a normal body is normal once a star in the body has taken its place. -/
theorem star (normal : body.IsNormal) : body.star.IsNormal := by
  by_cases grouped : GroupedStar body
  · rw [star_of_groupedStar grouped]
    exact normal.ungrouped
  · rw [star_of_not_groupedStar grouped]
    exact repetition_iff.mpr ⟨fun _ => grouped, fun _ => normal⟩

end IsNormal

/-! ## One pass -/

theorem normal_cons (item : Pattern) (rest : List Pattern) :
    (sequence (item :: rest)).normal = sequence (item.normal :: normalAll rest) :=
  rfl

theorem isNormal_normal (pattern : Pattern) : pattern.normal.IsNormal := by
  induction pattern using byItems with
  | literal symbol => exact .leaf rfl nofun
  | wildcard => exact .leaf rfl nofun
  | lineStart => exact .leaf rfl nofun
  | lineEnd => exact .leaf rfl nofun
  | nil => exact .nil
  | cons item rest ihItem ihRest => exact IsNormal.cons_iff.mpr ⟨ihItem, ihRest⟩
  | alternative first second ihFirst ihSecond =>
      exact IsNormal.alternative_iff.mpr ⟨ihFirst, ihSecond⟩
  | repetition quantifier body ih =>
      cases quantifier with
      | zeroOrMore => exact ih.star
      | oneOrMore => exact IsNormal.repetition_iff.mpr ⟨nofun, fun _ => ih⟩
      | zeroOrOne => exact IsNormal.repetition_iff.mpr ⟨nofun, fun _ => ih⟩
      | unspecified => exact IsNormal.repetition_iff.mpr ⟨nofun, fun given => absurd rfl given⟩

theorem normal_eq_self (isNormal : pattern.IsNormal) : pattern.normal = pattern := by
  induction pattern using byItems with
  | literal symbol => rfl
  | wildcard => rfl
  | lineStart => rfl
  | lineEnd => rfl
  | nil => rfl
  | cons item rest ihItem ihRest =>
      obtain ⟨itemNormal, restNormal⟩ := IsNormal.cons_iff.mp isNormal
      have others : normalAll rest = rest := sequence.inj (ihRest restNormal)
      rw [normal_cons, ihItem itemNormal, others]
  | alternative first second ihFirst ihSecond =>
      obtain ⟨firstNormal, secondNormal⟩ := IsNormal.alternative_iff.mp isNormal
      rw [normal, ihFirst firstNormal, ihSecond secondNormal]
  | repetition quantifier body ih =>
      obtain ⟨single, bodyNormal⟩ := IsNormal.repetition_iff.mp isNormal
      cases quantifier with
      | zeroOrMore =>
          rw [normal, ih (bodyNormal Quantifier.noConfusion)]
          exact star_of_not_groupedStar (single rfl)
      | oneOrMore => rw [normal, ih (bodyNormal Quantifier.noConfusion)]
      | zeroOrOne => rw [normal, ih (bodyNormal Quantifier.noConfusion)]
      | unspecified => rfl

/-! ## What a pass leaves -/

theorem filter_bare_sequence (items : List Pattern) :
    (sequence items).openNodes.filter isBare = (openNodesOf items).filter isBare :=
  rfl

theorem filter_bare_cons (item : Pattern) (rest : List Pattern) :
    (sequence (item :: rest)).openNodes.filter isBare =
      item.openNodes.filter isBare ++ (sequence rest).openNodes.filter isBare := by
  rw [filter_bare_sequence, openNodesOf_cons, List.filter_append, filter_bare_sequence]

theorem filter_bare_alternative (first second : Pattern) :
    (alternative first second).openNodes.filter isBare =
      first.openNodes.filter isBare ++ second.openNodes.filter isBare :=
  List.filter_append _ _

theorem filter_bare_repetition (given : quantifier ≠ .unspecified) (body : Pattern) :
    (repetition quantifier body).openNodes.filter isBare = body.openNodes.filter isBare := by
  rw [openNodes_repetition, if_neg given]
  cases quantifier with
  | unspecified => exact absurd rfl given
  | oneOrMore => rfl
  | zeroOrMore => rfl
  | zeroOrOne => rfl

theorem filter_bare_ungrouped (pattern : Pattern) :
    pattern.ungrouped.openNodes.filter isBare = pattern.openNodes.filter isBare := by
  fun_induction ungrouped pattern with
  | case1 item ih =>
      rw [ih, filter_bare_cons]
      exact (List.append_nil _).symm
  | case2 pattern => rfl

theorem filter_bare_star (body : Pattern) :
    body.star.openNodes.filter isBare = body.openNodes.filter isBare := by
  by_cases grouped : GroupedStar body
  · rw [star_of_groupedStar grouped, filter_bare_ungrouped]
  · rw [star_of_not_groupedStar grouped, filter_bare_repetition Quantifier.noConfusion]

/-- A pass leaves the outermost bare repetitions as they are. -/
theorem filter_bare_normal (pattern : Pattern) :
    pattern.normal.openNodes.filter isBare = pattern.openNodes.filter isBare := by
  induction pattern using byItems with
  | literal symbol => rfl
  | wildcard => rfl
  | lineStart => rfl
  | lineEnd => rfl
  | nil => rfl
  | cons item rest ihItem ihRest =>
      rw [normal_cons, filter_bare_cons, filter_bare_cons, ihItem, ← ihRest]
      rfl
  | alternative first second ihFirst ihSecond =>
      rw [normal, filter_bare_alternative, filter_bare_alternative, ihFirst, ihSecond]
  | repetition quantifier body ih =>
      cases quantifier with
      | zeroOrMore =>
          rw [normal, filter_bare_star, ih, filter_bare_repetition Quantifier.noConfusion]
      | oneOrMore =>
          rw [normal, filter_bare_repetition Quantifier.noConfusion, ih,
            filter_bare_repetition Quantifier.noConfusion]
      | zeroOrOne =>
          rw [normal, filter_bare_repetition Quantifier.noConfusion, ih,
            filter_bare_repetition Quantifier.noConfusion]
      | unspecified => rfl

theorem size_cons (item : Pattern) (rest : List Pattern) :
    (sequence (item :: rest)).size = item.size + (sequence rest).size := by
  simp [size, nodes_sequence, nodesOf_cons, Nat.add_assoc]

theorem size_alternative (first second : Pattern) :
    (alternative first second).size = first.size + second.size + 1 := by
  simp [size, nodes_alternative]

theorem size_repetition (quantifier : Quantifier) (body : Pattern) :
    (repetition quantifier body).size = body.size + 1 := by
  simp [size, nodes_repetition]

theorem size_ungrouped_le (pattern : Pattern) : pattern.ungrouped.size ≤ pattern.size := by
  fun_induction ungrouped pattern with
  | case1 item ih =>
      apply Nat.le_trans ih
      rw [size_cons]
      exact Nat.le_add_right _ _
  | case2 pattern => exact Nat.le_refl _

theorem size_star_le (body : Pattern) : body.star.size ≤ body.size + 1 := by
  by_cases grouped : GroupedStar body
  · rw [star_of_groupedStar grouped]
    exact Nat.le_succ_of_le body.size_ungrouped_le
  · rw [star_of_not_groupedStar grouped]
    exact Nat.le_of_eq (size_repetition _ _)

theorem size_normal_le (pattern : Pattern) : pattern.normal.size ≤ pattern.size := by
  induction pattern using byItems with
  | literal symbol => exact Nat.le_refl _
  | wildcard => exact Nat.le_refl _
  | lineStart => exact Nat.le_refl _
  | lineEnd => exact Nat.le_refl _
  | nil => exact Nat.le_refl _
  | cons item rest ihItem ihRest =>
      rw [normal_cons, size_cons, size_cons]
      exact Nat.add_le_add ihItem ihRest
  | alternative first second ihFirst ihSecond =>
      rw [normal, size_alternative, size_alternative]
      exact Nat.succ_le_succ (Nat.add_le_add ihFirst ihSecond)
  | repetition quantifier body ih =>
      rw [size_repetition]
      cases quantifier with
      | zeroOrMore => exact Nat.le_trans body.normal.size_star_le (Nat.succ_le_succ ih)
      | oneOrMore =>
          rw [normal, size_repetition]
          exact Nat.succ_le_succ ih
      | zeroOrOne =>
          rw [normal, size_repetition]
          exact Nat.succ_le_succ ih
      | unspecified => exact Nat.le_of_eq (size_repetition _ _)

/--
One pass reaches the normal form. It has no star around a star outside bare repetitions, and just
the patterns without one stay as they are, so that a second pass changes nothing. The outermost
bare repetitions are left with all that is in them, and no node is added.
-/
theorem normal_isFixedPoint (pattern : Pattern) :
    pattern.normal.IsNormal ∧
      (pattern.normal = pattern ↔ pattern.IsNormal) ∧
      pattern.normal.normal = pattern.normal ∧
      pattern.normal.openNodes.filter isBare = pattern.openNodes.filter isBare ∧
      pattern.normal.size ≤ pattern.size := by
  have reached := isNormal_normal pattern
  have fixed : pattern.normal = pattern ↔ pattern.IsNormal := by
    constructor
    · intro same
      exact same ▸ reached
    · exact normal_eq_self
  exact ⟨reached, fixed, normal_eq_self reached, filter_bare_normal pattern,
    size_normal_le pattern⟩

-- Groups between two stars go with the outer one, and a bare repetition keeps its stars.
example :
    let bare : Pattern := .repetition .unspecified
      (.repetition .zeroOrMore (.repetition .zeroOrMore .wildcard))
    normal (.repetition .zeroOrMore (.sequence [.sequence [.repetition .zeroOrMore bare]])) =
      .repetition .zeroOrMore bare :=
  rfl

end Pattern

end PatternMachine
