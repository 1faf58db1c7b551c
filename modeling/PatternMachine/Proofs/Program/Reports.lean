import PatternMachine.Program.Build
import PatternMachine.Proofs.Pattern.SameWords
import PatternMachine.Proofs.Pattern.Written

/-!
# What building reports

A program is built from the normal form of a pattern, and what building reports is said of that.
It holds of the pattern as well: the normal form has the same anchors, and it has content after an
end anchor just when the pattern has.
-/

namespace PatternMachine

theorem Draft.mem_warnings_iff {config : Config} {normal : Pattern} {event : Event} :
    event ∈ warnings config normal ↔
      (config.warnUnreachable = true ∧ normal.hasContentAfterEnd = true) ∧
        event = .unreachableContent normal := by
  unfold warnings
  rw [← Bool.and_eq_true_iff]
  split <;> simp [*]

/-- Only a warning can be without words, for the pattern that it quotes. -/
theorem Event.exists_message {event : Event} (other : event.severity ≠ .warning) :
    ∃ words, event.message = .ok words := by
  cases event with
  | unreachableContent normal => exact absurd rfl other
  | generated instructions nodes lineStart lineEnd => exact ⟨_, rfl⟩
  | evaluated strategy symbols verdict => exact ⟨_, rfl⟩
  | matchedAt offset => exact ⟨_, rfl⟩
  | invalidPattern source problem => exact ⟨_, rfl⟩
  | evaluationFailed input line fault => exact ⟨_, rfl⟩
  | unreadable input problem => exact ⟨_, rfl⟩
  | total lines => exact ⟨_, rfl⟩

namespace Pattern

variable {config : Config} {pattern : Pattern}

/-! ## Anchors -/

theorem hasLineStart_normal (pattern : Pattern) :
    pattern.normal.hasLineStart = pattern.hasLineStart := by
  rw [Bool.eq_iff_iff]
  simp only [hasLineStart, List.contains_iff_mem]
  exact mem_nodes_normal_iff rfl

theorem hasLineEnd_normal (pattern : Pattern) :
    pattern.normal.hasLineEnd = pattern.hasLineEnd := by
  rw [Bool.eq_iff_iff]
  simp only [hasLineEnd, List.contains_iff_mem]
  exact mem_nodes_normal_iff rfl

theorem hasContentAfterEnd_normal (pattern : Pattern) :
    pattern.normal.hasContentAfterEnd = pattern.hasContentAfterEnd :=
  congrArg EndScan.contentAfter (scanEnd_normal false pattern)

/-! ## Events -/

theorem events_build (config : Config) (pattern : Pattern) :
    ∃ generated, (pattern.build config).events =
        Draft.warnings config pattern.normal ++ generated ∧
      ∀ event ∈ generated, ∃ instructions : Nat,
        event = .generated instructions pattern.normal.size pattern.normal.hasLineStart
          pattern.normal.hasLineEnd := by
  simp only [build, Draft.build]
  cases (Draft.complete config.maxAddress pattern.normal).run {} with
  | error error draft => exact ⟨[], (List.append_nil _).symm, by simp⟩
  | ok program draft => exact ⟨[_], rfl, by simp⟩

theorem cases_of_build {event : Event} (mem : event ∈ (pattern.build config).events) :
    ((config.warnUnreachable = true ∧ pattern.hasContentAfterEnd = true) ∧
        event = .unreachableContent pattern.normal) ∨
      ∃ instructions : Nat, event =
        .generated instructions pattern.normal.size pattern.hasLineStart pattern.hasLineEnd := by
  obtain ⟨generated, events, anchors⟩ := events_build config pattern
  rw [events] at mem
  rcases List.mem_append.mp mem with warning | last
  · rw [Draft.mem_warnings_iff, hasContentAfterEnd_normal] at warning
    exact .inl warning
  · rw [← hasLineStart_normal, ← hasLineEnd_normal]
    exact .inr (anchors event last)

theorem severity_of_build {event : Event} (mem : event ∈ (pattern.build config).events) :
    event.severity ≠ .error := by
  rcases cases_of_build mem with ⟨-, rfl⟩ | ⟨_, rfl⟩
  · exact Severity.noConfusion
  · exact Severity.noConfusion

theorem exists_message_of_build (writable : pattern.Writable) {event : Event}
    (mem : event ∈ (pattern.build config).events) : ∃ words, event.message = .ok words := by
  rcases cases_of_build mem with ⟨-, rfl⟩ | ⟨_, rfl⟩
  · obtain ⟨text, written⟩ := exists_written_iff.mpr (Writable.normal_iff.mpr writable)
    simp only [Event.message, written, Except.ok.injEq, exists_eq']
  · exact ⟨_, rfl⟩

/-- A build warns just when this is due, and quotes the normal form. -/
theorem unreachableContent_mem_events_iff (config : Config) (pattern normal : Pattern) :
    .unreachableContent normal ∈ (pattern.build config).events ↔
      (config.warnUnreachable = true ∧ pattern.hasContentAfterEnd = true) ∧
        normal = pattern.normal := by
  constructor
  · intro mem
    rcases cases_of_build mem with ⟨due, same⟩ | ⟨_, other⟩
    · cases same
      exact ⟨due, rfl⟩
    · cases other
  · rintro ⟨due, rfl⟩
    obtain ⟨generated, events, -⟩ := events_build config pattern
    rw [events, List.mem_append, Draft.mem_warnings_iff, hasContentAfterEnd_normal]
    exact .inl ⟨due, rfl⟩

theorem anchors_of_generated {instructions nodes : Nat} {lineStart lineEnd : Bool}
    (mem : .generated instructions nodes lineStart lineEnd ∈ (pattern.build config).events) :
    lineStart = pattern.hasLineStart ∧ lineEnd = pattern.hasLineEnd := by
  rcases cases_of_build mem with ⟨-, other⟩ | ⟨_, same⟩
  · cases other
  · cases same
    exact ⟨rfl, rfl⟩

/--
Normalising changes nothing that is reported about a pattern. The scan for content after an end
anchor finds the same, however it is entered, and the anchors are the same. So a build warns just
when this is due for the pattern as it was given, quoting the normal form, and tells of the anchors
that the pattern has. The warning for a pattern that was read has words, in which the normal form is
written out.
-/
theorem normal_reports_same (pattern : Pattern) :
    (∀ endSeen, scanEnd endSeen pattern.normal = scanEnd endSeen pattern) ∧
      pattern.normal.hasLineStart = pattern.hasLineStart ∧
      pattern.normal.hasLineEnd = pattern.hasLineEnd ∧
      (∀ config normal, .unreachableContent normal ∈ (pattern.build config).events ↔
        (config.warnUnreachable = true ∧ pattern.hasContentAfterEnd = true) ∧
          normal = pattern.normal) ∧
      (∀ config instructions nodes lineStart lineEnd,
        .generated instructions nodes lineStart lineEnd ∈ (pattern.build config).events →
          lineStart = pattern.hasLineStart ∧ lineEnd = pattern.hasLineEnd) ∧
      ∀ source, read source = .ok pattern → ∀ config,
        (∃ text, pattern.normal.written = .ok text ∧
          ∃ event ∈ (pattern.build config).events, event.severity = .warning ∧
            event.message = .ok ("pattern has content after '$' that can never match: " ++ text)) ↔
          config.warnUnreachable = true ∧ pattern.hasContentAfterEnd = true := by
  refine ⟨fun endSeen => scanEnd_normal endSeen pattern, pattern.hasLineStart_normal,
    pattern.hasLineEnd_normal, fun config => unreachableContent_mem_events_iff config pattern,
    fun _ _ _ _ _ => anchors_of_generated, fun source parsed config => ?_⟩
  constructor
  · rintro ⟨text, -, event, mem, warning, -⟩
    rcases cases_of_build mem with ⟨due, -⟩ | ⟨_, rfl⟩
    · exact due
    · cases warning
  · intro due
    have writable := (canonical_of_read parsed).writable
    obtain ⟨text, written⟩ := exists_written_iff.mpr (Writable.normal_iff.mpr writable)
    have mem := (unreachableContent_mem_events_iff config pattern _).mpr ⟨due, rfl⟩
    exact ⟨text, written, _, mem, rfl, by simp only [Event.message, written]⟩

/-- In every round but the first the literal stands behind an end anchor. -/
def anchoredRounds : Pattern :=
  .sequence [.repetition .zeroOrMore
    (.sequence [.repetition .zeroOrMore (.sequence [.literal "a", .lineEnd])])]

theorem normal_reports_same_anchoredRounds :
    read "((a$)*)*" = .ok anchoredRounds ∧ anchoredRounds.normal ≠ anchoredRounds ∧
      scanEnd true anchoredRounds.normal = ⟨true, true⟩ ∧
      .generated 5 5 false true ∈ (anchoredRounds.build {}).events ∧
      anchoredRounds.hasLineEnd = true ∧
      .unreachableContent anchoredRounds.normal ∈ (anchoredRounds.build {}).events ∧
      ∃ event ∈ (anchoredRounds.build {}).events, event.severity = .warning ∧
        event.message = .ok ("pattern has content after '$' that can never match: " ++
          "Sequence([Star(Sequence([Char('a'), LineEnd()]))])") := by
  have parsed : read "((a$)*)*" = .ok anchoredRounds := by rfl
  have generated : .generated 5 5 false true ∈ (anchoredRounds.build {}).events := by decide
  have due : ({} : Config).warnUnreachable = true ∧ anchoredRounds.hasContentAfterEnd = true := by
    decide
  have written : anchoredRounds.normal.written =
      .ok "Sequence([Star(Sequence([Char('a'), LineEnd()]))])" := by rfl
  obtain ⟨scanned, -, -, quotes, anchors, warns⟩ := normal_reports_same anchoredRounds
  obtain ⟨text, quoted, warning⟩ := (warns _ parsed {}).mpr due
  obtain rfl := Except.ok.inj (written.symm.trans quoted)
  exact ⟨parsed, by decide, (scanned true).trans (by decide), generated,
    (anchors _ _ _ _ _ generated).2.symm, (quotes {} _).mpr ⟨due, rfl⟩, warning⟩

end Pattern

end PatternMachine
