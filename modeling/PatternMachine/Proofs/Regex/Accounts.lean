import Mathlib.Data.List.TakeWhile
import PatternMachine.Proofs.Machine.Lines
import PatternMachine.Proofs.Regex.Lines

/-!
# Every line is accounted for

A scan that notes failures sorts the lines of an input: a line matches, fails or holds no match,
and is found under its own number whatever becomes of the lines before it. A strict scan agrees
with it up to the first failure.
-/

namespace PatternMachine

namespace Text

structure IsTrimmed (line text : String) : Prop where
  breaks : ∃ behind, line.toList = text.toList ++ behind ∧ ∀ c ∈ behind, isLineBreak c = true
  last : ∀ c ∈ text.toList.getLast?, isLineBreak c = false

/-- The line with the given number, counted from one, has this text. -/
def IsLine (lines : List String) (number : Nat) (text : String) : Prop :=
  ∃ index line, number = index + 1 ∧ lines[index]? = some line ∧ IsTrimmed line text

/-- The entries belong to different lines and are in the order of these. -/
def Increasing {α : Type} (entries : List (Nat × α)) : Prop :=
  entries.Pairwise fun one other => one.1 < other.1

variable {line text : String} {lines : List String} {number : Nat}

theorem isTrimmed_trimLineBreaks (line : String) : IsTrimmed line (trimLineBreaks line) where
  breaks := by
    refine ⟨(line.toList.reverse.takeWhile isLineBreak).reverse, ?_, ?_⟩
    · rw [trimLineBreaks, String.toList_ofList, ← List.reverse_append,
        List.takeWhile_append_dropWhile, List.reverse_reverse]
    · intro c mem
      exact List.mem_takeWhile_imp (List.mem_reverse.mp mem)
  last := by
    intro c mem
    rw [trimLineBreaks, String.toList_ofList, List.getLast?_reverse] at mem
    have stopped := List.head?_dropWhile_not isLineBreak line.toList.reverse
    rw [mem] at stopped
    exact stopped

/-- Where the line breaks at the end begin is fixed by what stands before them. -/
theorem isTrimmed_iff : IsTrimmed line text ↔ text = trimLineBreaks line := by
  constructor
  · rintro ⟨⟨behind, split, breaks⟩, last⟩
    have stays : text.toList.reverse.dropWhile isLineBreak = text.toList.reverse := by
      cases reversed : text.toList.reverse with
      | nil => rfl
      | cons c rest =>
          have ends : text.toList.getLast? = some c := by
            rw [← List.head?_reverse, reversed, List.head?_cons]
          have kept : ¬ isLineBreak c = true := by simp [last c ends]
          exact List.dropWhile_cons_of_neg kept
    rw [trimLineBreaks, split, List.reverse_append,
      List.dropWhile_append_of_pos (fun c mem => breaks c (List.mem_reverse.mp mem)), stays,
      List.reverse_reverse, String.ofList_toList]
  · rintro rfl
    exact isTrimmed_trimLineBreaks line

theorem mem_numbered_iff : (number, text) ∈ numbered 1 lines ↔ IsLine lines number text := by
  simp only [numbered, List.mem_map, Prod.exists, Prod.mk.injEq, IsLine, isTrimmed_iff,
    List.mk_mem_zipIdx_iff_le_and_getElem?_sub]
  constructor
  · rintro ⟨line, index, ⟨first, found⟩, rfl, trimmed⟩
    exact ⟨index - 1, line, (Nat.sub_add_cancel first).symm, found, trimmed.symm⟩
  · rintro ⟨index, line, rfl, found, trimmed⟩
    exact ⟨line, index + 1, ⟨Nat.le_add_left 1 index, found⟩, rfl, trimmed.symm⟩

theorem IsLine.unique {other : String} (here : IsLine lines number text)
    (there : IsLine lines number other) : text = other := by
  obtain ⟨index, line, rfl, found, trimmed⟩ := here
  obtain ⟨_, _, same, found', trimmed'⟩ := there
  cases Nat.succ.inj same
  cases found.symm.trans found'
  rw [isTrimmed_iff.mp trimmed, isTrimmed_iff.mp trimmed']

theorem increasing_numbered (number : Nat) (lines : List String) :
    Increasing (numbered number lines) := by
  have numbers : (numbered number lines).map Prod.fst = List.range' number lines.length := by
    rw [numbered, List.map_map]
    exact List.zipIdx_map_snd number lines
  rw [Increasing, ← List.pairwise_map, numbers]
  exact List.pairwise_lt_range'

theorem Increasing.filter_before {α : Type} {front back : List (Nat × α)} {first : Nat × α}
    (order : Increasing (front ++ first :: back)) :
    (front ++ first :: back).filter (fun entry => entry.1 < first.1) = front := by
  obtain ⟨-, after, before⟩ := List.pairwise_append.mp order
  have kept : front.filter (fun entry => entry.1 < first.1) = front := by
    apply List.filter_eq_self.mpr
    exact fun entry mem => decide_eq_true (before entry mem first List.mem_cons_self)
  have dropped : (first :: back).filter (fun entry => entry.1 < first.1) = [] := by
    apply List.filter_eq_nil_iff.mpr
    intro entry mem small
    have least : first.1 ≤ entry.1 := by
      rcases List.mem_cons.mp mem with rfl | other
      · exact Nat.le_refl _
      · exact Nat.le_of_lt ((List.pairwise_cons.mp after).1 entry other)
    exact Nat.not_lt.mpr least (of_decide_eq_true small)
  rw [List.filter_append, kept, dropped, List.append_nil]

end Text

/-- Every line of an input is where it belongs. -/
structure LineScan.Accounts (scan : LineScan) (regex : Regex) (lines : List String) : Prop where
  /-- The matches are the lines whose search finds one. -/
  matching_iff : ∀ number text, (number, text) ∈ scan.matching ↔
    Text.IsLine lines number text ∧ (regex.searchLine text).value = .ok true
  /-- The failures are those of the lines whose search fails. -/
  failures_iff : ∀ number fault, (number, fault) ∈ scan.failures ↔
    ∃ text, Text.IsLine lines number text ∧ (regex.searchLine text).value = .error fault
  matching_increasing : Text.Increasing scan.matching
  failures_increasing : Text.Increasing scan.failures
  /-- No line is in both lists. -/
  apart : ∀ number text fault, (number, text) ∈ scan.matching → (number, fault) ∉ scan.failures
  /-- In the other lines a run at any offset returns and finds nothing that holds there. -/
  others : ∀ number text, Text.IsLine lines number text → (number, text) ∉ scan.matching →
    (∀ fault, (number, fault) ∉ scan.failures) → ∀ offset ≤ (symbols text).size, ∃ verdict,
      regex.machine.run (regex.machine.strategy none)
        ((symbols text).extract offset (symbols text).size) = .ok verdict ∧
      verdict.holdsAt offset = false

/-- A strict scan finds what a scan finds before its first failure, and ends with that. -/
structure StrictScan.UpToFailure (strict : StrictScan) (scan : LineScan) : Prop where
  of_clean : scan.failures = [] → strict.matching = scan.matching ∧ strict.failure = none
  of_failed : ∀ number fault later, scan.failures = (number, fault) :: later →
    strict.matching = scan.matching.filter (fun found => found.1 < number) ∧
      strict.failure = some (number, fault)

namespace Regex

variable {regex : Regex} {text : String}

theorem exists_run_of_searchLine (missed : (regex.searchLine text).value = .ok false) :
    ∀ offset ≤ (symbols text).size, ∃ verdict,
      regex.machine.run (regex.machine.strategy none)
        ((symbols text).extract offset (symbols text).size) = .ok verdict ∧
      verdict.holdsAt offset = false :=
  fun offset inside =>
    (Machine.searchAt_eq_ok missed).2 rfl offset (Machine.mem_offsets_iff.mpr inside)

/-! ## Noting failures -/

theorem mem_matching_iff {lines : List String} {number : Nat} :
    (number, text) ∈ (regex.scan lines).matching ↔
      Text.IsLine lines number text ∧ (regex.searchLine text).value = .ok true := by
  rw [scan_eq, List.mem_filter, Text.mem_numbered_iff, accepts_iff]

theorem mem_failures_iff {lines : List String} {number : Nat} {fault : Fault} :
    (number, fault) ∈ (regex.scan lines).failures ↔
      ∃ text, Text.IsLine lines number text ∧ (regex.searchLine text).value = .error fault := by
  simp only [scan_eq, List.mem_filterMap, Prod.exists, Option.map_eq_some_iff, Prod.mk.injEq,
    fault?_eq_some_iff, Text.mem_numbered_iff]
  constructor
  · rintro ⟨_, text, here, _, failed, rfl, rfl⟩
    exact ⟨text, here, failed⟩
  · rintro ⟨text, here, failed⟩
    exact ⟨number, text, here, fault, failed, rfl, rfl⟩

theorem increasing_matching (regex : Regex) (lines : List String) :
    Text.Increasing (regex.scan lines).matching := by
  rw [scan_eq]
  exact (Text.increasing_numbered 1 lines).filter _

theorem increasing_failures (regex : Regex) (lines : List String) :
    Text.Increasing (regex.scan lines).failures := by
  rw [scan_eq]
  apply List.Pairwise.filterMap _ _ (Text.increasing_numbered 1 lines)
  intro one other before entry noted entry' noted'
  obtain ⟨_, -, rfl⟩ := Option.map_eq_some_iff.mp noted
  obtain ⟨_, -, rfl⟩ := Option.map_eq_some_iff.mp noted'
  exact before

theorem accounts_scan (regex : Regex) (lines : List String) :
    (regex.scan lines).Accounts regex lines where
  matching_iff _ _ := mem_matching_iff
  failures_iff _ _ := mem_failures_iff
  matching_increasing := increasing_matching regex lines
  failures_increasing := increasing_failures regex lines
  apart number text fault matching failing := by
    obtain ⟨here, found⟩ := mem_matching_iff.mp matching
    obtain ⟨other, there, failed⟩ := mem_failures_iff.mp failing
    cases here.unique there
    rw [found] at failed
    cases failed
  others number text here unmatched sound := by
    apply exists_run_of_searchLine
    cases value : (regex.searchLine text).value with
    | error fault => exact absurd (mem_failures_iff.mpr ⟨text, here, value⟩) (sound fault)
    | ok found =>
        cases found with
        | true => exact absurd (mem_matching_iff.mpr ⟨here, value⟩) unmatched
        | false => rfl

/-! ## Up to the first failure -/

def returns (regex : Regex) (found : Nat × String) : Bool :=
  (regex.fault? found.2).isNone

theorem returns_of_unnoted {found : Nat × String}
    (unnoted : (regex.fault? found.2).map (fun fault => (found.1, fault)) = none) :
    regex.returns found = true :=
  Option.isNone_iff_eq_none.mpr (Option.map_eq_none_iff.mp unnoted)

/-- A strict scan adds to what it has noted what the lines up to the first failure hold. -/
theorem strictScanFrom_eq (regex : Regex) (number : Nat) (scan : LineScan) (lines : List String) :
    let sound := (Text.numbered number lines).takeWhile regex.returns
    regex.strictScanFrom number scan lines =
      { matching := scan.matching.reverse ++ sound.filter fun found => regex.accepts found.2
        failure := ((Text.numbered number lines).filterMap fun found =>
          (regex.fault? found.2).map fun fault => (found.1, fault)).head?
        events := scan.events.reverse ++
          ((Text.numbered number lines).take (sound.length + 1)).flatMap fun found =>
            (regex.searchLine found.2).events } := by
  induction lines generalizing number scan with
  | nil => simp [strictScanFrom, LineScan.inOrder]
  | cons line rest ih =>
      rw [strictScanFrom]
      cases value : (regex.searchLine (Text.trimLineBreaks line)).value with
      | error fault => simp [LineScan.note, LineScan.inOrder, returns, fault?, value]
      | ok found =>
          dsimp only
          rw [ih]
          cases found <;> simp [LineScan.note, returns, accepts, fault?, value]

theorem failure_strictScan (regex : Regex) (lines : List String) :
    (regex.strictScan lines).failure = (regex.scan lines).failures.head? := by
  rw [strictScan, strictScanFrom_eq, scan_eq]

theorem matching_strictScan {lines : List String} {number : Nat} {fault : Fault}
    {later : List (Nat × Fault)} (failed : (regex.scan lines).failures = (number, fault) :: later) :
    (regex.strictScan lines).matching =
      (regex.scan lines).matching.filter fun found => found.1 < number := by
  rw [scan_eq] at failed
  obtain ⟨front, first, back, split, unnoted, noted, -⟩ := List.filterMap_eq_cons_iff.mp failed
  obtain ⟨_, faulty, same⟩ := Option.map_eq_some_iff.mp noted
  cases same
  have order := Text.increasing_numbered 1 lines
  rw [split] at order
  have stops : ¬ regex.returns first = true := by simp [returns, faulty]
  have upTo : (front ++ first :: back).takeWhile regex.returns = front := by
    rw [List.takeWhile_append_of_pos (fun found mem => returns_of_unnoted (unnoted found mem)),
      List.takeWhile_cons_of_neg stops, List.append_nil]
  rw [strictScan, strictScanFrom_eq, scan_eq, split]
  dsimp only
  rw [upTo, List.filter_comm, order.filter_before]
  rfl

theorem matching_strictScan_of_clean {lines : List String}
    (clean : (regex.scan lines).failures = []) :
    (regex.strictScan lines).matching = (regex.scan lines).matching := by
  rw [scan_eq] at clean
  have unnoted := List.filterMap_eq_nil_iff.mp clean
  rw [strictScan, strictScanFrom_eq, scan_eq]
  dsimp only
  rw [List.takeWhile_eq_self_iff.mpr fun found mem => returns_of_unnoted (unnoted found mem)]
  rfl

theorem upToFailure_strictScan (regex : Regex) (lines : List String) :
    (regex.strictScan lines).UpToFailure (regex.scan lines) where
  of_clean clean := by
    constructor
    · exact matching_strictScan_of_clean clean
    · rw [failure_strictScan, clean, List.head?_nil]
  of_failed number fault later failed := by
    constructor
    · exact matching_strictScan failed
    · rw [failure_strictScan, failed, List.head?_cons]

/--
A scan accounts for every line once. The matches are the lines that hold one, the failures those
whose search fails, both under their own numbers and in order, and no other line matches anywhere.
A strict scan of the same lines gives the matches before the first failure and then that failure,
or all matches if no line fails.
-/
theorem scan_accounts_for_lines (regex : Regex) (lines : List String) :
    (regex.scan lines).Accounts regex lines ∧
      (regex.strictScan lines).UpToFailure (regex.scan lines) :=
  ⟨accounts_scan regex lines, upToFailure_strictScan regex lines⟩

/-- A row at the end of a line, under a limit that three letters in a row exceed. -/
def endingRow : Regex :=
  { source := "a+$"
    pattern := .sequence [.repetition .oneOrMore (.literal "a"), .lineEnd]
    program := ⟨#[.literal "a", .split 0 2, .matchEnd, .accept]⟩
    config := { maxDepth := 2 } }

example :
    let scan := endingRow.scan ["ba\r\n", "b\n", "aaab", "aa\r\r"]
    scan.matching = [(1, "ba"), (4, "aa")] ∧ scan.failures = [(3, ⟨.depthLimit, 1⟩)] ∧
      (endingRow.strictScan ["ba\r\n", "b\n", "aaab", "aa\r\r"]).matching = [(1, "ba")] := by
  decide

end Regex

end PatternMachine
