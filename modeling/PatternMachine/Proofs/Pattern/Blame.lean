import PatternMachine.Proofs.Pattern.Token

/-!
# What a reader blames

A reader keeps of the tokens before it only what decides whether the next one offends: every level
has an item exactly when its open branch has an atom, and something closed or open exactly when
there is an atom since its left parenthesis. So the reader stops at the leftmost offending token,
and without one it ends by what the tokens leave open.
-/

namespace PatternMachine

open Token (branch NoAtom Offends Sound openGroups span)

/-- A level folds to nothing exactly when nothing was read in it. -/
theorem Pattern.ofBranches_closeBranch_eq_none_iff (level : Level) :
    ofBranches level.closeBranch.branches.reverse = none ↔
      level.items = [] ∧ level.branches = [] := by
  have none_iff {branches : List Pattern} : ofBranches branches = none ↔ branches = [] := by
    cases branches with
    | nil => exact iff_of_true rfl rfl
    | cons branch rest =>
        refine iff_of_false (fun none => ?_) (List.cons_ne_nil _ _)
        unfold ofBranches at none
        split at none <;> cases none
  rw [none_iff, List.reverse_eq_nil_iff]
  obtain ⟨items, branches⟩ := level
  cases items <;> simp [Level.closeBranch]

/-! ## Levels and the tokens they were read from -/

/-- The level was read from the tokens since the left parenthesis before it, newest first. -/
structure Level.Spans (own : List Token) (level : Level) : Prop where
  /-- All groups among the tokens are closed. -/
  whole (closed : Nat) (earlier : List Token) :
    branch (closed + 1) (own ++ earlier) = own ++ branch (closed + 1) earlier
  even : own.count (.plain '(') = own.count (.plain ')')
  /-- The open branch begins among the tokens. -/
  within (earlier : List Token) : branch 0 (own ++ .plain '(' :: earlier) = branch 0 own
  items : level.items = [] ↔ NoAtom (branch 0 own)
  anything : level.items = [] ∧ level.branches = [] ↔ NoAtom own

namespace Level.Spans

variable {own outerOwn : List Token} {level around : Level} {token : Token}

theorem empty : Level.Spans [] {} where
  whole _ _ := rfl
  even := rfl
  within _ := rfl
  items := by simp [branch, NoAtom]
  anything := by simp [NoAtom]

/-- Where the level has an item, its tokens have an atom, and so has its open branch. -/
theorem atom_of_filled (spans : level.Spans own) (filled : level.items ≠ []) :
    ¬ NoAtom (branch 0 own) ∧ ¬ NoAtom own :=
  ⟨fun none => filled (spans.items.mpr none), fun none => filled (spans.anything.mpr none).1⟩

theorem inner (spans : level.Spans own) (inner : token.Inner)
    (atom : token.isAtom = true ∨ level.items ≠ []) {items : List Pattern} (filled : items ≠ []) :
    Level.Spans (token :: own) { level with items := items } := by
  have before (plain : token.isAtom = false) : ¬ NoAtom (branch 0 own) ∧ ¬ NoAtom own := by
    rcases atom with atom | before
    · rw [plain] at atom
      cases atom
    · exact spans.atom_of_filled before
  constructor
  case whole =>
    intro closed earlier
    rw [List.cons_append, Token.branch_inner inner, spans.whole]
    rfl
  case even =>
    rw [List.count_cons_of_ne inner.1, List.count_cons_of_ne inner.2.1]
    exact spans.even
  case within =>
    intro earlier
    rw [List.cons_append, Token.branch_inner inner, Token.branch_inner inner, spans.within]
  case items =>
    rw [Token.branch_inner inner, Token.NoAtom.cons_iff]
    exact iff_of_false filled fun nothing => (before nothing.1).1 nothing.2
  case anything =>
    rw [Token.NoAtom.cons_iff]
    exact iff_of_false (fun empty => filled empty.1) fun nothing => (before nothing.1).2 nothing.2

theorem bar (spans : level.Spans own) (filled : level.items ≠ []) :
    Level.Spans (.plain '|' :: own) level.closeBranch := by
  obtain ⟨items, branches⟩ := level
  cases items with
  | nil => exact absurd rfl filled
  | cons item rest =>
      refine ⟨fun closed earlier => ?_, ?_, fun earlier => rfl, ?_, ?_⟩
      · rw [List.cons_append, Token.branch_bar, spans.whole]
        rfl
      · rw [List.count_cons_of_ne (by decide), List.count_cons_of_ne (by decide)]
        exact spans.even
      · exact iff_of_true rfl fun _ mem => absurd mem List.not_mem_nil
      · refine iff_of_false (fun empty => List.cons_ne_nil _ _ empty.2) fun none => ?_
        exact (spans.atom_of_filled filled).2 (Token.NoAtom.cons_iff.mp none).2

/-- A closed group counts in the level around it as all that was read in it. -/
theorem group (spans : level.Spans own) (outer : around.Spans outerOwn) {next : Level}
    (items : next.items = [] ↔
      (level.items = [] ∧ level.branches = []) ∧ around.items = [])
    (anything : next.items = [] ∧ next.branches = [] ↔
      (level.items = [] ∧ level.branches = []) ∧ around.items = [] ∧ around.branches = []) :
    Level.Spans (.plain ')' :: (own ++ .plain '(' :: outerOwn)) next where
  whole closed earlier := by
    simp only [List.cons_append, List.append_assoc, Token.branch_closing, spans.whole,
      Token.branch_opening, outer.whole]
  even := by
    simp [List.count_append, spans.even, outer.even, List.count_cons_of_ne]
    omega
  within earlier := by
    simp only [List.cons_append, List.append_assoc, Token.branch_closing, spans.whole,
      Token.branch_opening, outer.within]
  items := by
    rw [Token.branch_closing, spans.whole, Token.branch_opening, Token.NoAtom.cons_iff,
      Token.NoAtom.append_iff, Token.NoAtom.cons_iff, items, spans.anything, outer.items]
    simp [Token.isAtom]
  anything := by
    rw [Token.NoAtom.cons_iff, Token.NoAtom.append_iff, Token.NoAtom.cons_iff, anything,
      spans.anything, outer.anything]
    simp [Token.isAtom]

end Level.Spans

/-- The open levels were read from the tokens up to the last left parenthesis still open. -/
inductive Around : List Token → List Level → Prop where
  | outermost : Around [] []
  | inside {own earlier : List Token} {level : Level} {outer : List Level}
      (spans : level.Spans own) (around : Around earlier outer) :
      Around (.plain '(' :: (own ++ earlier)) (level :: outer)

theorem Around.count {earlier : List Token} {outer : List Level} (around : Around earlier outer) :
    earlier.count (.plain '(') = earlier.count (.plain ')') + outer.length := by
  induction around with
  | outermost => rfl
  | inside spans _ ih =>
      simp [List.count_append, spans.even, ih]
      omega

namespace Reader

/-- The reader stands behind the tokens, newest first. -/
inductive Tracks : List Token → Reader → Prop where
  | intro {own earlier : List Token} {level : Level} {outer : List Level}
      (spans : level.Spans own) (around : Around earlier outer) :
      Tracks (own ++ earlier) ⟨level, outer⟩

def take (position : Nat) (reader : Reader) : Token → Except ReadError Reader
  | .escape c => reader.escape (position + 1 : Nat) (String.ofList [c])
  | .plain c => reader.character position c

/-- The reader blames the token, or the token is fine and the reader stands behind it. -/
inductive Answers (past : List Token) (token : Token) : Except ReadError Reader → Prop where
  | error {error : ReadError} (offends : Offends past token error) :
      Answers past token (.error error)
  | ok {next : Reader} (fine : ∀ error, ¬ Offends past token error)
      (tracks : Tracks (token :: past) next) : Answers past token (.ok next)

namespace Tracks

variable {past : List Token} {reader : Reader} {token : Token}

theorem start : Tracks [] {} :=
  @Tracks.intro [] [] {} [] .empty .outermost

theorem openGroups_eq (tracks : Tracks past reader) : openGroups past = reader.outer.length := by
  obtain ⟨spans, around⟩ := tracks
  simp only [openGroups, List.count_append, spans.even, around.count]
  omega

theorem items_iff (tracks : Tracks past reader) :
    reader.level.items = [] ↔ NoAtom (branch 0 past) := by
  obtain ⟨spans, around⟩ := tracks
  cases around with
  | outermost => rw [List.append_nil, spans.items]
  | inside => rw [spans.within, spans.items]

theorem of_cons {own earlier : List Token} {level : Level} {outer : List Level}
    (spans : level.Spans (token :: own)) (around : Around earlier outer) :
    Tracks (token :: (own ++ earlier)) ⟨level, outer⟩ :=
  .intro spans around

/-! ## One token -/

theorem atom (tracks : Tracks past reader) (isAtom : token.isAtom = true) (item : Pattern) :
    Tracks (token :: past) (reader.push item) := by
  obtain ⟨spans, around⟩ := tracks
  have inner := Token.Inner.of_isAtom isAtom
  exact .intro (spans.inner inner (.inl isAtom) (List.cons_ne_nil _ _)) around

theorem atom_plain (tracks : Tracks past reader) {c : Char}
    (isAtom : (Token.plain c).isAtom = true) (item : Pattern) :
    Answers past (.plain c) (.ok (reader.push item)) :=
  .ok (fun _ => Token.not_offends_of_isAtom isAtom) (tracks.atom isAtom item)

theorem escape (tracks : Tracks past reader) (c : Char) :
    Answers past (.escape c) (reader.escape (span past + 1 : Nat) (String.ofList [c])) := by
  rw [escape_character]
  split
  · rename_i valid
    refine .ok (fun error offends => ?_) (tracks.atom rfl _)
    cases offends with
    | escape invalid => exact invalid valid
  · rename_i invalid
    exact .error (.escape invalid)

/-- A sign that needs an item before it offends exactly where the open branch has no atom. -/
theorem previous_iff (tracks : Tracks past reader) {c : Char} (sign : c ∈ ['+', '*', '?', '|'])
    (error : ReadError) :
    Offends past (.plain c) error ↔
      reader.level.items = [] ∧ error = ⟨.noPrevious, span past, none⟩ := by
  rw [tracks.items_iff]
  constructor
  · intro offends
    cases offends with
    | closing _ => exact absurd sign (by decide)
    | previous _ nothing => exact ⟨nothing, rfl⟩
  · rintro ⟨nothing, rfl⟩
    exact .previous sign nothing

theorem quantify (tracks : Tracks past reader) {c : Char} (sign : c ∈ ['+', '*', '?'])
    (quantifier : Quantifier) :
    Answers past (.plain c) (reader.quantify (span past) quantifier) := by
  have offends_iff := tracks.previous_iff (List.mem_append_left ['|'] sign)
  have inner : (Token.plain c).Inner := by
    have signs : ∀ sign ∈ ['+', '*', '?'], Token.plain sign ≠ .plain '(' ∧
        Token.plain sign ≠ .plain ')' ∧ Token.plain sign ≠ .plain '|' := by simp
    exact signs c sign
  unfold Reader.quantify
  split
  · rename_i none
    exact .error ((offends_iff _).mpr ⟨none, rfl⟩)
  · rename_i last items filled
    refine .ok (fun error offends => ?_) ?_
    · have none := ((offends_iff error).mp offends).1
      simp [filled] at none
    · obtain ⟨spans, around⟩ := tracks
      refine of_cons (spans.inner inner (.inr ?_) (List.cons_ne_nil _ _)) around
      simp only at filled
      simp [filled]

theorem bar (tracks : Tracks past reader) :
    Answers past (.plain '|') (reader.bar (span past)) := by
  have sign : '|' ∈ ['+', '*', '?', '|'] := by decide
  have offends_iff := tracks.previous_iff sign
  unfold Reader.bar
  split
  · rename_i none
    exact .error ((offends_iff _).mpr ⟨none, rfl⟩)
  · rename_i last items filled
    have some : reader.level.items ≠ [] := by simp [filled]
    refine .ok (fun error offends => some ((offends_iff error).mp offends).1) ?_
    obtain ⟨spans, around⟩ := tracks
    exact of_cons (spans.bar some) around

theorem openGroup (tracks : Tracks past reader) :
    Answers past (.plain '(') (.ok reader.openGroup) := by
  refine .ok (fun error offends => ?_) ?_
  · cases offends with
    | previous needs _ => exact absurd needs (by decide)
  · obtain ⟨spans, around⟩ := tracks
    exact @Tracks.intro [] _ {} _ .empty (.inside spans around)

theorem closeGroup (tracks : Tracks past reader) :
    Answers past (.plain ')') (reader.closeGroup (span past)) := by
  have depth := tracks.openGroups_eq
  obtain @⟨own, _, level, _, spans, around⟩ := tracks
  cases around with
  | outermost => exact .error (.closing depth)
  | @inside outerOwn earlier around outer outerSpans outside =>
      have fine : ∀ error, ¬ Offends (own ++ .plain '(' :: (outerOwn ++ earlier)) (.plain ')')
          error := by
        intro error offends
        cases offends with
        | closing closed => simp [depth] at closed
        | previous needs _ => exact absurd needs (by decide)
      have tokens : Token.plain ')' :: (own ++ .plain '(' :: (outerOwn ++ earlier)) =
          (.plain ')' :: (own ++ .plain '(' :: outerOwn)) ++ earlier := by simp
      have empty_iff := Pattern.ofBranches_closeBranch_eq_none_iff level
      simp only [Reader.closeGroup]
      split
      · rename_i nothing
        have empty := empty_iff.mp nothing
        refine .ok fine (tokens ▸ .intro (spans.group outerSpans ?_ ?_) outside)
        · simp [empty]
        · simp [empty]
      · rename_i group folded
        have filled : ¬ (level.items = [] ∧ level.branches = []) := fun empty => by
          rw [empty_iff.mpr empty] at folded
          cases folded
        refine .ok fine (tokens ▸ .intro (spans.group outerSpans ?_ ?_) outside)
        · simp [filled, Level.push]
        · simp [filled, Level.push]

/-- Reading a token answers as the rules on offending tokens say. -/
theorem take (tracks : Tracks past reader) (token : Token) (ended : token ≠ .plain '\\') :
    Answers past token (reader.take (span past) token) := by
  cases token with
  | escape c => exact tracks.escape c
  | plain c =>
      simp only [Reader.take]
      unfold Reader.character
      split
      · exact tracks.quantify (by decide) _
      · exact tracks.quantify (by decide) _
      · exact tracks.quantify (by decide) _
      · exact tracks.openGroup
      · exact tracks.closeGroup
      · exact tracks.bar
      · exact tracks.atom_plain (by decide) _
      · exact tracks.atom_plain (by decide) _
      · exact tracks.atom_plain (by decide) _
      · refine tracks.atom_plain ?_ _
        simp_all [Token.isAtom]

end Tracks

/-! ## The whole text -/

theorem scan_token (position : Nat) {token : Token} (ended : token ≠ .plain '\\')
    (rest : List Char) (reader : Reader) :
    scan position none (token.text ++ rest) reader =
      match reader.take position token with
      | .error error => ⟨reader, .error error⟩
      | .ok next => scan (position + token.text.length) none rest next := by
  cases token with
  | escape c => rfl
  | plain c =>
      have other : c ≠ '\\' := fun same => ended (congrArg Token.plain same)
      simp only [Token.text, List.cons_append, List.nil_append, scan, if_neg other]
      rfl

inductive Ends (past tokens : List Token) : Scanned → Prop where
  | offends {before after : List Token} {token : Token} {error : ReadError} {reader : Reader}
      (split : tokens = before ++ token :: after) (sound : Sound past before)
      (offends : Offends (before.reverse ++ past) token error) :
      Ends past tokens ⟨reader, .error error⟩
  | pending {before : List Token} {reader : Reader} (split : tokens = before ++ [.plain '\\'])
      (sound : Sound past tokens) :
      Ends past tokens ⟨reader, .ok (some (span (before.reverse ++ past)))⟩
  | reads {reader : Reader} (sound : Sound past tokens) (ended : .plain '\\' ∉ tokens)
      (tracks : Tracks (tokens.reverse ++ past) reader) : Ends past tokens ⟨reader, .ok none⟩

theorem Ends.cons {past tokens : List Token} {token : Token} {scanned : Scanned}
    (fine : ∀ error, ¬ Offends past token error) (ended : token ≠ .plain '\\')
    (rest : Ends (token :: past) tokens scanned) : Ends past (token :: tokens) scanned := by
  have behind (before : List Token) :
      before.reverse ++ token :: past = (token :: before).reverse ++ past := by simp
  cases rest with
  | @offends before after other _ _ split sound offends =>
      rw [behind] at offends
      have split' : token :: tokens = (token :: before) ++ other :: after :=
        congrArg (token :: ·) split
      exact .offends split' (.cons fine sound) offends
  | @pending before _ split sound =>
      rw [behind]
      exact .pending (congrArg (token :: ·) split) (.cons fine sound)
  | reads sound others tracks =>
      rw [behind] at tracks
      refine .reads (.cons fine sound) (fun mem => ?_) tracks
      exact (List.mem_cons.mp mem).elim (fun same => ended same.symm) others

theorem Tracks.scan {past : List Token} {reader : Reader} (tracks : Tracks past reader)
    (source : List Char) :
    Ends past (Token.ofText source) (scan (span past) none source reader) := by
  have step {token : Token} (ended : token ≠ .plain '\\') {rest : List Char}
      (ih : ∀ {past : List Token} {reader : Reader}, Tracks past reader →
        Ends past (Token.ofText rest) (Reader.scan (span past) none rest reader))
      {past : List Token} {reader : Reader} (tracks : Tracks past reader) :
      Ends past (token :: Token.ofText rest)
        (Reader.scan (span past) none (token.text ++ rest) reader) := by
    rw [scan_token _ ended]
    cases answer : reader.take (span past) token with
    | error error =>
        have answers := tracks.take token ended
        rw [answer] at answers
        cases answers with
        | error offends =>
            have first : token :: Token.ofText rest = [] ++ token :: Token.ofText rest := rfl
            exact .offends first .nil offends
    | ok next =>
        have answers := tracks.take token ended
        rw [answer] at answers
        cases answers with
        | ok fine tracks =>
            refine .cons fine ended ?_
            rw [← Token.span_cons]
            exact ih tracks
  fun_induction Token.ofText source generalizing past reader with
  | case1 c rest ih => exact step (by simp) ih tracks
  | case2 c rest last ih =>
      by_cases backslash : c = '\\'
      · subst backslash
        cases rest with
        | nil =>
            have only : [Token.plain '\\'] = [] ++ [.plain '\\'] := rfl
            exact .pending only (.cons (fun _ => Token.not_offends_backslash) .nil)
        | cons c rest => exact (last c rest rfl rfl).elim
      · have ended : Token.plain c ≠ .plain '\\' := by simpa using backslash
        exact step ended ih tracks
  | case3 => exact .reads .nil List.not_mem_nil tracks

theorem Tracks.finish {past : List Token} {reader : Reader} (tracks : Tracks past reader) :
    (0 < openGroups past ∧ reader.finish = .error ⟨.noRightParenthesis, -1, none⟩) ∨
      (openGroups past = 0 ∧ NoAtom past ∧ reader.finish = .error ⟨.empty, -1, none⟩) ∨
      (openGroups past = 0 ∧ ¬ NoAtom past ∧ ∃ pattern, reader.finish = .ok pattern) := by
  have depth := tracks.openGroups_eq
  obtain @⟨own, earlier, level, outer, spans, around⟩ := tracks
  cases around with
  | inside => exact .inl ⟨by simp [depth], rfl⟩
  | outermost =>
      have empty_iff := Pattern.ofBranches_closeBranch_eq_none_iff level
      rw [spans.anything] at empty_iff
      rw [List.append_nil] at depth ⊢
      simp only [Reader.finish]
      split
      · rename_i nothing
        exact .inr (.inl ⟨depth, empty_iff.mp nothing, rfl⟩)
      · rename_i pattern folded
        refine .inr (.inr ⟨depth, fun nothing => ?_, pattern, rfl⟩)
        rw [empty_iff.mpr nothing] at folded
        cases folded

end Reader

namespace Pattern

open Token (Blames Fine)

/-- A text is blamed and refused with this error, or it is fine and read. -/
theorem read_cases (source : String) :
    (∃ error, read source = .error error ∧ Blames (Token.ofText source.toList) error) ∨
      ∃ pattern, read source = .ok pattern ∧ Fine (Token.ofText source.toList) := by
  have ends := Reader.Tracks.start.scan source.toList
  generalize Token.ofText source.toList = tokens at ends ⊢
  have start : span [] = 0 := rfl
  rw [start] at ends
  unfold read Reader.readAll
  generalize Reader.scan 0 none source.toList {} = scanned at ends ⊢
  cases ends with
  | offends split sound offends =>
      rw [List.append_nil] at offends
      exact .inl ⟨_, rfl, .offends split sound offends⟩
  | @pending before _ split sound =>
      refine .inl ⟨_, rfl, ?_⟩
      have position : span (before.reverse ++ []) = span before := by
        simp [Token.span, List.length_flatMap, List.sum_reverse]
      simp only [position]
      exact .backslash split sound
  | reads sound ended tracks =>
      have groups : openGroups (tokens.reverse ++ []) = openGroups tokens := by
        simp [Token.openGroups]
      have atoms : NoAtom (tokens.reverse ++ []) ↔ NoAtom tokens := by simp [NoAtom]
      have finish := tracks.finish
      rw [groups, atoms] at finish
      rcases finish with ⟨opened, finish⟩ | ⟨closed, nothing, finish⟩ |
        ⟨closed, something, pattern, finish⟩
      · simp only [finish]
        exact .inl ⟨_, rfl, .opened sound ended opened⟩
      · simp only [finish]
        exact .inl ⟨_, rfl, .empty sound ended closed nothing⟩
      · simp only [finish]
        exact .inr ⟨_, rfl, sound, ended, closed, something⟩

/--
A text is refused with just the error that its tokens are blamed for, and read exactly when they
are fine.
-/
theorem read_iff_blames (source : String) :
    (∀ error, read source = .error error ↔ Blames (Token.ofText source.toList) error) ∧
      ((∃ pattern, read source = .ok pattern) ↔ Fine (Token.ofText source.toList)) := by
  rcases read_cases source with ⟨error, refused, blames⟩ | ⟨pattern, ok, fine⟩
  · rw [refused]
    refine ⟨fun other => ⟨?_, fun blames' => congrArg _ (blames.unique blames')⟩,
      iff_of_false (fun ⟨pattern, ok⟩ => by cases ok) blames.not_fine⟩
    rintro ⟨⟩
    exact blames
  · rw [ok]
    refine ⟨fun error => iff_of_false (fun refused => by cases refused) fun blames => ?_,
      iff_of_true ⟨pattern, rfl⟩ fine⟩
    exact blames.not_fine fine

/-- An empty group is no item, so the second bar ends a branch without an atom. -/
example : read "a|()|b" = .error ⟨.noPrevious, 4, none⟩ := by rfl

/-- A backslash at the end counts before a group that is still open. -/
example : read "(a\\" = .error ⟨.trailingEscape, 2, none⟩ := by rfl

end Pattern

end PatternMachine
