import Mathlib.Data.List.Basic
import PatternMachine.Program.Basic
import PatternMachine.Proofs.Text.Naming

/-!
# Listings

A listing loses nothing. A line begins with the address, which is the same for the lines at one
place of two listings, and with the mnemonic, which tells the kind of the instruction; the rest is
the name of a character or numbers that no comma is part of. A line feed in a program is listed by
its code point, so that the lines can be told apart. Nothing else about the printable characters
is used: the listing is studied for any choice of them by which a line feed is not printable.
-/

namespace PatternMachine

namespace Instruction

variable {printable : Char → Bool} {instruction one other : Instruction} {text : String}

/-- The form of an instruction in a listing when `printable` tells which characters are shown. -/
def listedBy (printable : Char → Bool) : Instruction → Except Uncoded String
  | .literal symbol =>
      match symbol.namedBy printable id with
      | .ok name => .ok ("char " ++ name)
      | .error problem => .error problem
  | instruction => instruction.listed

theorem listedBy_isPrintable (instruction : Instruction) :
    instruction.listedBy Text.isPrintable = instruction.listed := by
  cases instruction <;> rfl

theorem listedBy_literal_eq_ok {symbol : Symbol} :
    (literal symbol).listedBy printable = .ok text ↔
      ∃ name, symbol.namedBy printable id = .ok name ∧ text = "char " ++ name := by
  rw [listedBy]
  cases symbol.namedBy printable id <;> simp [eq_comm]

def Coded : Instruction → Prop
  | .literal symbol => symbol.length = 1
  | _ => True

theorem exists_listedBy (printable : Char → Bool) (coded : instruction.Coded) :
    ∃ text, instruction.listedBy printable = .ok text := by
  cases instruction with
  | literal symbol =>
      obtain ⟨c, rfl⟩ := Symbol.exists_char coded
      exact ⟨_, listedBy_literal_eq_ok.mpr ⟨_, Symbol.namedBy_singleton printable id c, rfl⟩⟩
  | any | head | matchEnd | jump target | split first second | accept => exact ⟨_, rfl⟩

/-- The word that names the kind of an instruction. -/
def mnemonic : Instruction → List Char
  | .literal _ => ['c', 'h', 'a', 'r']
  | .any => ['a', 'n', 'y']
  | .head => ['h', 'e', 'a', 'd']
  | .matchEnd => ['m', 'a', 't', 'c', 'h', '_', 'e', 'n', 'd']
  | .jump _ => ['j', 'u', 'm', 'p']
  | .split _ _ => ['s', 'p', 'l', 'i', 't']
  | .accept => ['m', 'a', 't', 'c', 'h']

theorem takeWhile_listedBy (ok : instruction.listedBy printable = .ok text) :
    text.toList.takeWhile (· ≠ ' ') = instruction.mnemonic := by
  cases instruction with
  | literal symbol =>
      obtain ⟨name, -, rfl⟩ := listedBy_literal_eq_ok.mp ok
      simp [mnemonic]
  | jump target | split first second =>
      cases ok
      simp [mnemonic]
  | any | head | matchEnd | accept =>
      cases ok
      decide

/-- The comma between two targets is the only one. -/
theorem targets_inj {first second first' second' : Int}
    (same : Text.decimal4 first ++ (", " ++ Text.decimal4 second) =
      Text.decimal4 first' ++ (", " ++ Text.decimal4 second')) :
    first = first' ∧ second = second' := by
  have noComma (value : Int) : ',' ∉ (Text.decimal4 value).toList :=
    Text.not_mem_decimal4 (by decide) (by decide)
  have lists : (Text.decimal4 first).toList ++ ',' :: ' ' :: (Text.decimal4 second).toList =
      (Text.decimal4 first').toList ++ ',' :: ' ' :: (Text.decimal4 second').toList := by
    simpa using congrArg String.toList same
  obtain ⟨left, right⟩ := Text.append_mark_inj (noComma first) (noComma first') lists
  exact ⟨Text.decimal4_injective (String.toList_inj.mp left),
    Text.decimal4_injective (String.toList_inj.mp (List.cons.inj right).2)⟩

theorem lineFeed_not_mem_listedBy (lineFeed : printable '\n' = false)
    (ok : instruction.listedBy printable = .ok text) : '\n' ∉ text.toList := by
  have plain (value : Int) : '\n' ∉ (Text.decimal4 value).toList :=
    Text.not_mem_decimal4 (by decide) (by decide)
  cases instruction with
  | literal symbol =>
      obtain ⟨name, named, rfl⟩ := listedBy_literal_eq_ok.mp ok
      simpa using Symbol.lineFeed_not_mem_namedBy lineFeed named
  | jump target =>
      cases ok
      simpa using plain target
  | split first second =>
      cases ok
      simpa using ⟨plain first, plain second⟩
  | any | head | matchEnd | accept =>
      cases ok
      decide

theorem eq_of_listedBy (coded : one.Coded) (coded' : other.Coded)
    (ok : one.listedBy printable = .ok text) (ok' : other.listedBy printable = .ok text) :
    one = other := by
  have kind : one.mnemonic = other.mnemonic :=
    (takeWhile_listedBy ok).symm.trans (takeWhile_listedBy ok')
  have same := ok.trans ok'.symm
  cases one <;> cases other <;> simp [mnemonic] at kind
  case literal.literal symbol symbol' =>
      obtain ⟨c, rfl⟩ := Symbol.exists_char coded
      obtain ⟨c', rfl⟩ := Symbol.exists_char coded'
      obtain ⟨name, named, rfl⟩ := listedBy_literal_eq_ok.mp ok
      obtain ⟨name', named', same⟩ := listedBy_literal_eq_ok.mp ok'
      obtain rfl := (String.append_right_inj _).mp same
      rw [Symbol.namedBy_injective (named.trans named'.symm)]
  case jump.jump target target' =>
      have targets := (String.append_right_inj _).mp (Except.ok.inj same)
      rw [Text.decimal4_injective targets]
  case split.split first second first' second' =>
      simp only [listedBy, listed, Except.ok.injEq, String.append_assoc,
        String.append_right_inj] at same
      obtain ⟨rfl, rfl⟩ := targets_inj same
      rfl
  all_goals rfl

end Instruction

namespace Program

variable {printable : Char → Bool} {address : Nat} {instruction : Instruction}
  {instructions one other : List Instruction} {lines : List String} {program : Program}
  {text : String}

def linesBy (printable : Char → Bool) (address : Nat) :
    List Instruction → Except Uncoded (List String)
  | [] => .ok []
  | instruction :: rest =>
      match instruction.listedBy printable with
      | .error problem => .error problem
      | .ok text =>
          match linesBy printable (address + 1) rest with
          | .error problem => .error problem
          | .ok lines => .ok ((Text.decimal4 address ++ ": " ++ text) :: lines)

def listingBy (printable : Char → Bool) (program : Program) : Except Uncoded String :=
  match linesBy printable 0 program.code.toList with
  | .error problem => .error problem
  | .ok lines => .ok (String.intercalate "\n" lines)

theorem linesBy_isPrintable (address : Nat) (instructions : List Instruction) :
    linesBy Text.isPrintable address instructions = listedFrom address instructions := by
  induction instructions generalizing address with
  | nil => rfl
  | cons instruction rest ih =>
      unfold linesBy listedFrom
      cases listed : instruction.listed with
      | error problem => simp only [Instruction.listedBy_isPrintable, listed]
      | ok text =>
          cases lines : listedFrom (address + 1) rest <;>
            simp only [Instruction.listedBy_isPrintable, listed, ih, lines]

/-- The listing is the one for the characters that are shown as themselves. -/
theorem listingBy_isPrintable : listingBy Text.isPrintable = listing := by
  funext program
  unfold listingBy listing
  cases lines : listedFrom 0 program.code.toList <;> simp only [linesBy_isPrintable, lines]

theorem listingBy_eq_ok : program.listingBy printable = .ok text ↔
    ∃ lines, linesBy printable 0 program.code.toList = .ok lines ∧
      text = String.intercalate "\n" lines := by
  rw [listingBy]
  cases linesBy printable 0 program.code.toList <;> simp [eq_comm]

/-! ## Lines of a listing -/

theorem linesBy_cons_eq_ok : linesBy printable address (instruction :: instructions) = .ok lines ↔
    ∃ text rest, instruction.listedBy printable = .ok text ∧
      linesBy printable (address + 1) instructions = .ok rest ∧
      lines = (Text.decimal4 address ++ ": " ++ text) :: rest := by
  rw [linesBy]
  cases instruction.listedBy printable with
  | error problem => simp
  | ok text => cases linesBy printable (address + 1) instructions <;> simp [eq_comm]

theorem exists_linesBy (printable : Char → Bool) (address : Nat)
    (coded : ∀ instruction ∈ instructions, instruction.Coded) :
    ∃ lines, linesBy printable address instructions = .ok lines := by
  induction instructions generalizing address with
  | nil => exact ⟨_, rfl⟩
  | cons instruction rest ih =>
      obtain ⟨codedFirst, codedRest⟩ := List.forall_mem_cons.mp coded
      obtain ⟨text, listed⟩ := Instruction.exists_listedBy printable codedFirst
      obtain ⟨lines, ok⟩ := ih (address + 1) codedRest
      exact ⟨_, linesBy_cons_eq_ok.mpr ⟨text, lines, listed, ok, rfl⟩⟩

theorem length_linesBy (ok : linesBy printable address instructions = .ok lines) :
    lines.length = instructions.length := by
  induction instructions generalizing address lines with
  | nil =>
      cases ok
      rfl
  | cons instruction instructions ih =>
      obtain ⟨text, rest, -, okRest, rfl⟩ := linesBy_cons_eq_ok.mp ok
      rw [List.length_cons, List.length_cons, ih okRest]

theorem line_of_mem_linesBy (lineFeed : printable '\n' = false)
    (ok : linesBy printable address instructions = .ok lines) :
    ∀ line ∈ lines, line ≠ "" ∧ '\n' ∉ line.toList := by
  induction instructions generalizing address lines with
  | nil =>
      cases ok
      exact fun line mem => absurd mem List.not_mem_nil
  | cons instruction instructions ih =>
      obtain ⟨text, rest, listed, okRest, rfl⟩ := linesBy_cons_eq_ok.mp ok
      have plain : '\n' ∉ (Text.decimal4 address).toList :=
        Text.not_mem_decimal4 (by decide) (by decide)
      have plain' : '\n' ∉ text.toList := Instruction.lineFeed_not_mem_listedBy lineFeed listed
      refine List.forall_mem_cons.mpr ⟨⟨?_, ?_⟩, ih okRest⟩
      · simp
      · simpa using ⟨plain, plain'⟩

/-- Lines from one address on determine the instructions. -/
theorem eq_of_linesBy (coded : ∀ instruction ∈ one, instruction.Coded)
    (coded' : ∀ instruction ∈ other, instruction.Coded)
    (ok : linesBy printable address one = .ok lines)
    (ok' : linesBy printable address other = .ok lines) : one = other := by
  induction one generalizing other address lines with
  | nil =>
      cases ok
      exact (List.eq_nil_of_length_eq_zero (length_linesBy ok').symm).symm
  | cons first one ih =>
      obtain ⟨text, rest, listed, okRest, rfl⟩ := linesBy_cons_eq_ok.mp ok
      cases other with
      | nil => cases ok'
      | cons second other =>
          obtain ⟨text', rest', listed', okRest', same⟩ := linesBy_cons_eq_ok.mp ok'
          obtain ⟨sameLine, rfl⟩ := List.cons.inj same
          obtain rfl := (String.append_right_inj _).mp sameLine
          obtain ⟨codedFirst, codedRest⟩ := List.forall_mem_cons.mp coded
          obtain ⟨codedFirst', codedRest'⟩ := List.forall_mem_cons.mp coded'
          rw [Instruction.eq_of_listedBy codedFirst codedFirst' listed listed',
            ih codedRest codedRest' okRest okRest']

theorem splitOn_intercalate (filled : lines ≠ []) (plain : ∀ line ∈ lines, '\n' ∉ line.toList) :
    (String.intercalate "\n" lines).toList.splitOn '\n' = lines.map String.toList := by
  rw [String.toList_intercalate]
  refine List.splitOn_intercalate '\n' ?_ (by simpa using filled)
  simpa using plain

theorem filter_splitOn_intercalate
    (all : ∀ line ∈ lines, line ≠ "" ∧ '\n' ∉ line.toList) :
    ((String.intercalate "\n" lines).toList.splitOn '\n').filter (· ≠ []) =
      lines.map String.toList := by
  by_cases filled : lines = []
  · subst filled
    rfl
  · rw [splitOn_intercalate filled fun line mem => (all line mem).2]
    simpa using fun line mem => (all line mem).1

/-- The text of a listing determines its lines. -/
theorem linesBy_unique (lineFeed : printable '\n' = false) {one other : Program}
    (ok : one.listingBy printable = .ok text) (ok' : other.listingBy printable = .ok text) :
    ∃ lines, linesBy printable 0 one.code.toList = .ok lines ∧
      linesBy printable 0 other.code.toList = .ok lines := by
  obtain ⟨lines, listed, rfl⟩ := listingBy_eq_ok.mp ok
  obtain ⟨lines', listed', same⟩ := listingBy_eq_ok.mp ok'
  have read := filter_splitOn_intercalate (line_of_mem_linesBy lineFeed listed)
  have read' := filter_splitOn_intercalate (line_of_mem_linesBy lineFeed listed')
  rw [same, read'] at read
  obtain rfl := List.map_injective_iff.mpr (fun _ _ => String.toList_inj.mp) read
  exact ⟨_, listed, listed'⟩

def Coded (program : Program) : Prop :=
  ∀ instruction ∈ program.code, instruction.Coded

theorem exists_listingBy (printable : Char → Bool) (coded : program.Coded) :
    ∃ text, program.listingBy printable = .ok text := by
  obtain ⟨lines, listed⟩ := exists_linesBy printable 0
    fun instruction mem => coded instruction (Array.mem_toList_iff.mp mem)
  exact ⟨_, listingBy_eq_ok.mpr ⟨lines, listed, rfl⟩⟩

/--
Nothing is lost in the listing of a program. A program whose literals are single characters has a
listing, from which it can be told from any other such program; and each listing of a program that
is not empty has a line for each instruction.
-/
structure LosesNothing (listing : Program → Except Uncoded String) : Prop where
  listed : ∀ program : Program, program.Coded → ∃ text, listing program = .ok text
  injective : ∀ one other : Program, one.Coded → other.Coded →
    listing one = listing other → one = other
  lines : ∀ program text, listing program = .ok text → program.code ≠ #[] →
    (text.toList.splitOn '\n').length = program.size

theorem losesNothing_listingBy (lineFeed : printable '\n' = false) :
    LosesNothing (listingBy printable) where
  listed := fun program coded => exists_listingBy printable coded
  injective := by
    intro one other coded coded' same
    obtain ⟨text, ok⟩ := exists_listingBy printable coded
    obtain ⟨lines, listed, listed'⟩ := linesBy_unique lineFeed ok (same ▸ ok)
    have sameCode : one.code.toList = other.code.toList :=
      eq_of_linesBy (fun _ mem => coded _ (Array.mem_toList_iff.mp mem))
        (fun _ mem => coded' _ (Array.mem_toList_iff.mp mem)) listed listed'
    exact congrArg mk (Array.toList_inj.mp sameCode)
  lines := by
    intro program text ok filled
    obtain ⟨lines, listed, rfl⟩ := listingBy_eq_ok.mp ok
    have count : lines.length = program.size := length_linesBy listed
    have filledLines : lines ≠ [] := by
      rintro rfl
      exact filled (Array.eq_empty_of_size_eq_zero count.symm)
    have plain := fun line mem => (line_of_mem_linesBy lineFeed listed line mem).2
    rw [splitOn_intercalate filledLines plain, List.length_map, count]

/--
A listing loses nothing, and for this it only matters which characters are shown in that a line
feed is not.
-/
theorem listing_losesNothing :
    LosesNothing listing ∧
      ∀ printable : Char → Bool, printable '\n' = false → LosesNothing (listingBy printable) := by
  refine ⟨?_, fun printable lineFeed => losesNothing_listingBy lineFeed⟩
  rw [← listingBy_isPrintable]
  exact losesNothing_listingBy Text.isPrintable_lineFeed

/-- Literals that look like spaces, line breaks and digits, and targets out of all bounds. -/
def awkward : Program :=
  ⟨#[.literal "\n", .literal " ", .literal "0", .split (-1) 12345, .jump (-12345)]⟩

def awkwardListing : String :=
  "0000: char 0x000a\n" ++ "0001: char  \n" ++ "0002: char 0\n" ++
    "0003: split -001, 12345\n" ++ "0004: jump -12345"

theorem listing_losesNothing_awkward :
    awkward.Coded ∧ awkward.listing = .ok awkwardListing ∧
      (awkwardListing.toList.splitOn '\n').length = 5 ∧
      (∀ other : Program, other.Coded → other.listing = awkward.listing → other = awkward) ∧
      Char.isAlphanum '\n' = false ∧
      awkward.listingBy Char.isAlphanum ≠ awkward.listing ∧
      ∀ other : Program, other.Coded →
        other.listingBy Char.isAlphanum = awkward.listingBy Char.isAlphanum →
        other = awkward := by
  obtain ⟨shown, any⟩ := listing_losesNothing
  have coded : awkward.Coded := by
    have single : "\n".length = 1 ∧ " ".length = 1 ∧ "0".length = 1 := by decide
    simpa [Coded, awkward, Instruction.Coded] using single
  have listed : awkward.listing = .ok awkwardListing := by decide
  have lineFeed : Char.isAlphanum '\n' = false := by decide
  exact ⟨coded, listed, shown.lines awkward _ listed (by decide),
    fun other codedOther => shown.injective other awkward codedOther coded, lineFeed, by decide,
    fun other codedOther => (any _ lineFeed).injective other awkward codedOther coded⟩

end Program

end PatternMachine
