import Mathlib.Order.Bounds.Basic
import PatternMachine.Proofs.Pattern.Blame
import PatternMachine.Proofs.Pattern.Printed

/-!
# Texts that can still be completed

Wherever the reader stands, one item and a parenthesis for every open group complete the text. So
a text is beyond repair as soon as the reader refuses a character, and not before: three reasons
are final, and the others only miss something behind the text.
-/

namespace PatternMachine

/-- Whether nothing that follows can make up for it. -/
def ReadReason.isFinal : ReadReason → Bool
  | .invalidEscape | .invalidRightParenthesis | .noPrevious => true
  | .noRightParenthesis | .empty | .trailingEscape => false

theorem Level.items_push_ne_nil (item : Pattern) (level : Level) : (level.push item).items ≠ [] :=
  List.cons_ne_nil item level.items

namespace Reader

variable {position : Nat} {pending waiting : Option Nat} {reader : Reader}
  {back text : List Char} {c : Char} {error : ReadError} {level : Level}

/-! ## One character -/

/-- Reads one character; a backslash that is not escaped itself waits for the next one. -/
def step (position : Nat) (pending : Option Nat) (c : Char) (reader : Reader) :
    Except ReadError (Option Nat × Reader) :=
  match pending with
  | some _ => (reader.escape position (String.ofList [c])).map (none, ·)
  | none =>
      if c = '\\' then .ok (some position, reader)
      else (reader.character position c).map (none, ·)

theorem scan_cons (position : Nat) (pending : Option Nat) (c : Char) (rest : List Char)
    (reader : Reader) :
    scan position pending (c :: rest) reader =
      match step position pending c reader with
      | .error error => ⟨reader, .error error⟩
      | .ok (waiting, next) => scan (position + 1) waiting rest next := by
  cases pending with
  | some _ =>
      simp only [scan, step]
      cases reader.escape position (String.ofList [c]) <;> rfl
  | none =>
      simp only [scan, step]
      split
      · rfl
      · cases reader.character position c <;> rfl

def RefusedAt (position : Nat) (error : ReadError) : Prop :=
  error.reason.isFinal = true ∧ error.position = position

theorem refusedAt_of_escape (refused : reader.escape position (String.ofList [c]) = .error error) :
    RefusedAt position error := by
  rw [escape_character] at refused
  split at refused
  · cases refused
  · cases refused
    exact ⟨rfl, rfl⟩

theorem refusedAt_of_quantify {quantifier : Quantifier}
    (refused : reader.quantify position quantifier = .error error) :
    RefusedAt position error := by
  unfold quantify at refused
  split at refused
  · cases refused
    exact ⟨rfl, rfl⟩
  · cases refused

theorem refusedAt_of_bar (refused : reader.bar position = .error error) :
    RefusedAt position error := by
  unfold bar at refused
  split at refused
  · cases refused
    exact ⟨rfl, rfl⟩
  · cases refused

theorem refusedAt_of_closeGroup (refused : reader.closeGroup position = .error error) :
    RefusedAt position error := by
  unfold closeGroup at refused
  split at refused
  · cases refused
    exact ⟨rfl, rfl⟩
  · split at refused <;> cases refused

theorem refusedAt_of_character (refused : reader.character position c = .error error) :
    RefusedAt position error := by
  unfold character at refused
  split at refused
  · exact refusedAt_of_quantify refused
  · exact refusedAt_of_quantify refused
  · exact refusedAt_of_quantify refused
  · cases refused
  · exact refusedAt_of_closeGroup refused
  · exact refusedAt_of_bar refused
  · cases refused
  · cases refused
  · cases refused
  · cases refused

theorem eq_error_of_map {α β : Type} {result : Except ReadError α} {f : α → β}
    (mapped : result.map f = .error error) : result = .error error := by
  cases result with
  | error found =>
      cases mapped
      rfl
  | ok value => cases mapped

theorem refusedAt_of_step (refused : step position pending c reader = .error error) :
    RefusedAt position error := by
  unfold step at refused
  split at refused
  · exact refusedAt_of_escape (eq_error_of_map refused)
  · split at refused
    · cases refused
    · exact refusedAt_of_character (eq_error_of_map refused)

/-! ## A front of the text -/

/-- Goes on with a scan at a position, unless it has stopped at an error. -/
def Scanned.resume (position : Nat) (back : List Char) (scanned : Scanned) : Scanned :=
  match scanned.result with
  | .error _ => scanned
  | .ok waiting => scan position waiting back scanned.reader

theorem Scanned.resume_of_error {scanned : Scanned} (stopped : scanned.result = .error error) :
    scanned.resume position back = scanned := by
  simp only [resume, stopped]

theorem Scanned.resume_of_ok {scanned : Scanned} (read : scanned.result = .ok waiting) :
    scanned.resume position back = scan position waiting back scanned.reader := by
  simp only [resume, read]

theorem scan_append (position : Nat) (pending : Option Nat) (front back : List Char)
    (reader : Reader) :
    scan position pending (front ++ back) reader =
      (scan position pending front reader).resume (position + front.length) back := by
  induction front generalizing position pending reader with
  | nil => rfl
  | cons c rest ih =>
      rw [List.cons_append, scan_cons, scan_cons]
      cases step position pending c reader with
      | error error => rfl
      | ok after =>
          simp only [ih, List.length_cons]
          rw [Nat.add_right_comm, Nat.add_assoc]

/-- A scan that stops at an error reads the characters before it and refuses the one there. -/
theorem exists_refusedAt (refused : (scan position pending text reader).result = .error error) :
    ∃ index, RefusedAt (position + index) error ∧
      (∃ waiting, (scan position pending (text.take index) reader).result = .ok waiting) ∧
      (scan position pending (text.take (index + 1)) reader).result = .error error := by
  induction text generalizing position pending reader with
  | nil => cases refused
  | cons c rest ih =>
      rw [scan_cons] at refused
      cases read : step position pending c reader with
      | error found =>
          rw [read] at refused
          cases refused
          refine ⟨0, refusedAt_of_step read, ⟨pending, rfl⟩, ?_⟩
          rw [List.take_succ_cons, scan_cons, read]
      | ok after =>
          rw [read] at refused
          obtain ⟨index, refusedAt, before, here⟩ := ih refused
          refine ⟨index + 1, ?_, ?_, ?_⟩
          · rwa [Nat.add_right_comm, Nat.add_assoc] at refusedAt
          · rw [List.take_succ_cons, scan_cons, read]
            exact before
          · rw [List.take_succ_cons, scan_cons, read]
            exact here

/-! ## Completing a text -/

theorem exists_ofBranches (filled : level.items ≠ []) :
    ∃ group, Pattern.ofBranches level.closeBranch.branches.reverse = some group := by
  refine Option.ne_none_iff_exists'.mp fun none => ?_
  exact filled ((Pattern.ofBranches_closeBranch_eq_none_iff level).mp none).1

theorem Takes.closings (filled : level.items ≠ []) (outer : List Level) :
    ∃ last : Level, last.items ≠ [] ∧
      Takes (List.replicate outer.length ')') ⟨level, outer⟩ ⟨last, []⟩ := by
  induction outer generalizing level with
  | nil => exact ⟨level, filled, .nil⟩
  | cons around outer ih =>
      obtain ⟨group, folded⟩ := exists_ofBranches filled
      have closed : Takes [')'] ⟨level, around :: outer⟩ ⟨around.push group, outer⟩ := by
        refine .character (by decide) fun position => ?_
        simp only [Reader.character, closeGroup, folded]
      obtain ⟨last, something, others⟩ := ih (Level.items_push_ne_nil group around)
      exact ⟨last, something, closed.append others⟩

theorem exists_scan_period (position : Nat) (pending : Option Nat) (rest : List Char)
    (reader : Reader) :
    ∃ item, scan position pending ('.' :: rest) reader =
      scan (position + 1) none rest (reader.push item) := by
  cases pending with
  | none => exact ⟨.wildcard, rfl⟩
  | some _ => exact ⟨.literal ".", rfl⟩

/-- Wherever a reader stands, some text leaves it with an item and without open groups. -/
theorem exists_completion (position : Nat) (pending : Option Nat) (reader : Reader) :
    ∃ text, ∃ last : Level, last.items ≠ [] ∧
      scan position pending text reader = ⟨⟨last, []⟩, .ok none⟩ := by
  obtain ⟨item, read⟩ := exists_scan_period position pending
    (List.replicate reader.outer.length ')') reader
  obtain ⟨last, filled, closed⟩ :=
    Takes.closings (Level.items_push_ne_nil item reader.level) reader.outer
  have ended := closed (position + 1) []
  rw [List.append_nil] at ended
  exact ⟨_, last, filled, read.trans ended⟩

end Reader

namespace Pattern

open Reader (scan)

variable {front text : List Char}

/-- Some text that begins so can be read. -/
def Completable (front : List Char) : Prop :=
  ∃ back pattern, read (String.ofList (front ++ back)) = .ok pattern

theorem Completable.take (completable : Completable text) (count : Nat) :
    Completable (text.take count) := by
  obtain ⟨back, pattern, ok⟩ := completable
  refine ⟨text.drop count ++ back, pattern, ?_⟩
  rwa [← List.append_assoc, List.take_append_drop]

theorem read_of_scan_error {source : String} {error : ReadError}
    (refused : (scan 0 none source.toList {}).result = .error error) :
    read source = .error error := by
  simp only [read, Reader.readAll, refused]

theorem read_of_scan_ok {source : String} {waiting : Option Nat}
    (scanned : (scan 0 none source.toList {}).result = .ok waiting) :
    (∃ pattern, read source = .ok pattern) ∨
      ∃ error, read source = .error error ∧ error.reason.isFinal = false := by
  simp only [read, Reader.readAll, scanned]
  cases waiting with
  | some position => exact .inr ⟨_, rfl, rfl⟩
  | none =>
      simp only [Reader.finish]
      cases (scan 0 none source.toList {}).reader.outer with
      | cons level outer => exact .inr ⟨_, rfl, rfl⟩
      | nil =>
          generalize (scan 0 none source.toList {}).reader.level.closeBranch.branches.reverse =
            branches
          cases ofBranches branches with
          | none => exact .inr ⟨_, rfl, rfl⟩
          | some pattern => exact .inl ⟨pattern, rfl⟩

/-- A text can be completed exactly when the reader refuses no character of it. -/
theorem completable_iff :
    Completable front ↔ ∃ waiting, (scan 0 none front {}).result = .ok waiting := by
  constructor
  · rintro ⟨back, pattern, ok⟩
    cases result : (scan 0 none front {}).result with
    | ok waiting => exact ⟨waiting, rfl⟩
    | error error =>
        have refused : (scan 0 none (String.ofList (front ++ back)).toList {}).result =
            .error error := by
          rw [String.toList_ofList, Reader.scan_append, Reader.Scanned.resume_of_error result,
            result]
        rw [read_of_scan_error refused] at ok
        cases ok
  · rintro ⟨waiting, scanned⟩
    obtain ⟨back, last, filled, ended⟩ := Reader.exists_completion (0 + front.length) waiting
      (scan 0 none front {}).reader
    obtain ⟨pattern, folded⟩ := Reader.exists_ofBranches filled
    have whole : scan 0 none (String.ofList (front ++ back)).toList {} =
        ⟨⟨last, []⟩, .ok none⟩ := by
      rw [String.toList_ofList, Reader.scan_append, Reader.Scanned.resume_of_ok scanned, ended]
    refine ⟨back, pattern, ?_⟩
    simp only [read, Reader.readAll, whole, Reader.finish, folded]

theorem isLeast_of_scan_error {error : ReadError}
    (refused : (scan 0 none text {}).result = .error error) :
    ∃ index : Nat, error.reason.isFinal = true ∧ error.position = index ∧
      IsLeast {index | ¬ Completable (text.take (index + 1))} index := by
  obtain ⟨index, ⟨final, blamed⟩, before, here⟩ := Reader.exists_refusedAt refused
  rw [Nat.zero_add] at blamed
  refine ⟨index, final, blamed, ?_, ?_⟩
  · intro completable
    obtain ⟨waiting, scanned⟩ := completable_iff.mp completable
    cases here.symm.trans scanned
  · intro other beyond
    by_contra earlier
    have within := (completable_iff.mpr before).take (other + 1)
    rw [List.take_take, Nat.min_eq_left (Nat.lt_of_not_le earlier)] at within
    exact beyond within

/--
A text is refused for a final reason just at the first character with which it cannot be completed
any more, whatever follows. It is refused for another reason exactly when it cannot be read as it
is but can be completed.
-/
theorem read_error_iff_completable (source : String) :
    (∀ index : Nat,
      (∃ error, read source = .error error ∧ error.reason.isFinal = true ∧
          error.position = index) ↔
        IsLeast {index | ¬ Completable (source.toList.take (index + 1))} index) ∧
      ((∃ error, read source = .error error ∧ error.reason.isFinal = false) ↔
        (¬ ∃ pattern, read source = .ok pattern) ∧ Completable source.toList) := by
  cases scanned : (scan 0 none source.toList {}).result with
  | error error =>
      obtain ⟨first, final, blamed, least⟩ := isLeast_of_scan_error scanned
      rw [read_of_scan_error scanned]
      refine ⟨fun index => ⟨?_, fun least' => ?_⟩, iff_of_false ?_ ?_⟩
      · rintro ⟨_, ⟨⟩, -, same⟩
        rw [blamed, Int.ofNat_inj] at same
        exact same ▸ least
      · exact ⟨error, rfl, final, least'.unique least ▸ blamed⟩
      · rintro ⟨_, ⟨⟩, missing⟩
        rw [final] at missing
        cases missing
      · rintro ⟨-, completable⟩
        exact least.1 (completable.take _)
  | ok waiting =>
      have completable : Completable source.toList := completable_iff.mpr ⟨waiting, scanned⟩
      have nowhere (index : Nat) :
          ¬ IsLeast {index | ¬ Completable (source.toList.take (index + 1))} index :=
        fun least => least.1 (completable.take _)
      rcases read_of_scan_ok scanned with ⟨pattern, ok⟩ | ⟨error, refused, missing⟩
      · simp [ok, nowhere]
      · simp [refused, missing, nowhere, completable]

end Pattern

end PatternMachine
