import Mathlib.Computability.RegularExpressions
import Pos2.Calls.Method
import Pos2.Text

/-! App names of `server/src/main.rs`: which names are accepted, and the path
component that a name is turned into. -/

namespace Pos2.Server
open Calls

/-- `[a-zA-Z0-9-]` -/
def wordChars : Text := "abcdefghijklmnopqrstuvwxyzABCDEFGHIJKLMNOPQRSTUVWXYZ0123456789-".toList

def oneOf (chars : Text) : RegularExpression Char :=
  chars.foldr (fun c others => .char c + others) 0

/-- `r+` -/
def repeated (r : RegularExpression Char) : RegularExpression Char := r * r.star

def word : RegularExpression Char := repeated (oneOf wordChars)

/-- `^[a-zA-Z0-9-]+(\.[a-zA-Z0-9-]+)*(/[a-zA-Z0-9-]+)+$` -/
def nameRegex : RegularExpression Char :=
  word * (.char '.' * word).star * repeated (.char '/' * word)

def checkName (name : Text) : Bool := nameRegex.rmatch name

/-- `str::replace` of one character. -/
def replace (text : Text) (old : Char) (new : Text) : Text :=
  text.flatMap fun c => if c = old then new else [c]

def encode (name : Text) : Text := replace (replace name '-' "--".toList) '/' "-".toList

def nameToPath (name : Text) : Except String Text :=
  if !checkName name then .error "bad name" else .ok (encode name)

/-- The database of a user's app, in `WasmHostState::query` and `install_app`. -/
def dbPath (userId : Int) (name : Text) : Except String Text := do
  let path ← nameToPath name
  return "./data/users/".toList ++ (toString userId).toList ++ "/apps/".toList ++ path ++ "/db.sqlite3".toList

/-- How the handlers find the app for a path: the first one, where every name
before it has to be a good one. -/
def selectApp (path : Text) : List Text → Outcome String (Option Text)
  | [] => .ok none
  | name :: names =>
    match nameToPath name with
    | .error _ => .panic
    | .ok here => if here = path then .ok (some name) else selectApp path names

/-! ### Reading a name -/

/-- Where in a name a reader is: at the start of a dotted part or inside it, and the
same for the parts behind a slash. -/
inductive Place where
  | headStart
  | head
  | partStart
  | part
  | bad
  deriving DecidableEq

def Place.step (place : Place) (c : Char) : Place :=
  match place with
  | .headStart => if c ∈ wordChars then .head else .bad
  | .head => if c ∈ wordChars then .head else if c = '.' then .headStart else if c = '/' then .partStart else .bad
  | .partStart => if c ∈ wordChars then .part else .bad
  | .part => if c ∈ wordChars then .part else if c = '/' then .partStart else .bad
  | .bad => .bad

def Place.read (place : Place) (text : Text) : Place := text.foldl Place.step place

namespace Names

/-- The words of one character. -/
def chars : Language Char := (oneOf wordChars).matches'

def single (c : Char) : Language Char := (RegularExpression.char c).matches'

/-- What may follow inside the last part. -/
def partRest : Language Char := KStar.kstar chars * KStar.kstar (single '/' * (chars * KStar.kstar chars))

/-- What may follow inside the first part. -/
def headRest : Language Char :=
  KStar.kstar chars * (KStar.kstar (single '.' * (chars * KStar.kstar chars)) *
    (single '/' * (chars * KStar.kstar chars) * KStar.kstar (single '/' * (chars * KStar.kstar chars))))

private theorem nameRegex_language : nameRegex.matches' = chars * headRest := by
  simp only [nameRegex, word, repeated, RegularExpression.matches'_mul, RegularExpression.matches'_star, chars,
    headRest, single, mul_assoc]

private theorem kstar_unfold (language : Language Char) :
    KStar.kstar language = 1 + language * KStar.kstar language :=
  (Language.one_add_self_mul_kstar_eq_kstar language).symm

private theorem partRest_unfold : partRest = 1 + chars * partRest + single '/' * (chars * partRest) := by
  have parts : KStar.kstar (single '/' * (chars * KStar.kstar chars)) = 1 + single '/' * (chars * partRest) := by
    rw [kstar_unfold, mul_assoc, mul_assoc]
    rfl
  calc partRest
      = (1 + chars * KStar.kstar chars) * KStar.kstar (single '/' * (chars * KStar.kstar chars)) := by
        rw [← kstar_unfold]
        rfl
    _ = KStar.kstar (single '/' * (chars * KStar.kstar chars)) + chars * partRest := by
        rw [add_mul, one_mul, mul_assoc]
        rfl
    _ = 1 + chars * partRest + single '/' * (chars * partRest) := by
        rw [parts, add_assoc, add_comm (single '/' * _), ← add_assoc]

private theorem headRest_unfold :
    headRest = chars * headRest + single '.' * (chars * headRest) + single '/' * (chars * partRest) := by
  have parts : single '/' * (chars * KStar.kstar chars) * KStar.kstar (single '/' * (chars * KStar.kstar chars)) =
      single '/' * (chars * partRest) := by
    rw [mul_assoc, mul_assoc]
    rfl
  have dotted : KStar.kstar (single '.' * (chars * KStar.kstar chars)) * (single '/' * (chars * partRest)) =
      single '/' * (chars * partRest) + single '.' * (chars * headRest) := by
    rw [kstar_unfold, add_mul, one_mul, headRest, parts]
    simp only [mul_assoc]
  calc headRest
      = (1 + chars * KStar.kstar chars) *
          (KStar.kstar (single '.' * (chars * KStar.kstar chars)) * (single '/' * (chars * partRest))) := by
        rw [← kstar_unfold, headRest, parts]
    _ = KStar.kstar (single '.' * (chars * KStar.kstar chars)) * (single '/' * (chars * partRest)) +
          chars * headRest := by
        rw [add_mul, one_mul, headRest, parts]
        simp only [mul_assoc]
    _ = chars * headRest + single '.' * (chars * headRest) + single '/' * (chars * partRest) := by
        rw [dotted, add_comm, add_comm (single '/' * _), add_assoc]

private theorem mem_oneOf {characters text : Text} :
    text ∈ (oneOf characters).matches' ↔ ∃ c ∈ characters, text = [c] := by
  induction characters with
  | nil => simp [oneOf, Language.notMem_zero]
  | cons c others ih =>
    change text ∈ (RegularExpression.char c).matches' + (oneOf others).matches' ↔ _
    rw [Language.mem_add, ih, List.exists_mem_cons_iff]
    rfl

private theorem mem_chars {text : Text} : text ∈ chars ↔ ∃ c ∈ wordChars, text = [c] := mem_oneOf

private theorem cons_mem_chars {c : Char} {text : Text} {rest : Language Char} :
    c :: text ∈ chars * rest ↔ c ∈ wordChars ∧ text ∈ rest := by
  rw [Language.mem_mul]
  constructor
  · rintro ⟨first, single, later, member, same⟩
    obtain ⟨d, known, rfl⟩ := mem_chars.mp single
    cases same
    exact ⟨known, member⟩
  · rintro ⟨known, member⟩
    exact ⟨[c], mem_chars.mpr ⟨c, known, rfl⟩, text, member, rfl⟩

private theorem cons_mem_single {c d : Char} {text : Text} {rest : Language Char} :
    c :: text ∈ single d * rest ↔ c = d ∧ text ∈ rest := by
  rw [Language.mem_mul]
  constructor
  · rintro ⟨first, rfl, later, member, same⟩
    cases same
    exact ⟨rfl, member⟩
  · rintro ⟨rfl, member⟩
    exact ⟨[c], rfl, text, member, rfl⟩

private theorem nil_mem_chars {rest : Language Char} : ([] : Text) ∉ chars * rest := by
  rintro ⟨first, single, later, _, same⟩
  obtain ⟨d, _, rfl⟩ := mem_chars.mp single
  cases same

private theorem nil_mem_single {d : Char} {rest : Language Char} : ([] : Text) ∉ single d * rest := by
  rintro ⟨first, rfl, later, _, same⟩
  cases same

/-- What a reader at a place may still read. -/
def expected : Place → Language Char
  | .headStart => chars * headRest
  | .head => headRest
  | .partStart => chars * partRest
  | .part => partRest
  | .bad => 0

private theorem nil_mem_expected {place : Place} : ([] : Text) ∈ expected place ↔ place = .part := by
  cases place with
  | headStart => simpa [expected] using nil_mem_chars
  | head =>
    rw [expected, headRest_unfold, Language.mem_add, Language.mem_add]
    simp [nil_mem_chars, nil_mem_single]
  | partStart => simpa [expected] using nil_mem_chars
  | part =>
    rw [expected, partRest_unfold, Language.mem_add, Language.mem_add]
    simp
  | bad => simp [expected, Language.notMem_zero]

theorem dot_not_word : '.' ∉ wordChars := by decide

theorem slash_not_word : '/' ∉ wordChars := by decide

private theorem cons_mem_expected {place : Place} {c : Char} {text : Text} :
    c :: text ∈ expected place ↔ text ∈ expected (place.step c) := by
  cases place with
  | headStart =>
    rw [expected, cons_mem_chars, Place.step]
    split <;> simp [*, expected, Language.notMem_zero]
  | head =>
    rw [expected, headRest_unfold, Language.mem_add, Language.mem_add, cons_mem_chars, cons_mem_single,
      cons_mem_single, Place.step]
    by_cases known : c ∈ wordChars
    · have other : c ≠ '.' ∧ c ≠ '/' :=
        ⟨fun same => dot_not_word (same ▸ known), fun same => slash_not_word (same ▸ known)⟩
      simp [known, other, expected]
    · by_cases dot : c = '.'
      · subst dot
        simp [dot_not_word, expected]
      · by_cases slash : c = '/'
        · subst slash
          simp [slash_not_word, expected]
        · simp [known, dot, slash, expected, Language.notMem_zero]
  | partStart =>
    rw [expected, cons_mem_chars, Place.step]
    split <;> simp [*, expected, Language.notMem_zero]
  | part =>
    rw [expected, partRest_unfold, Language.mem_add, Language.mem_add, cons_mem_chars, cons_mem_single, Place.step]
    by_cases known : c ∈ wordChars
    · have other : c ≠ '/' := fun same => slash_not_word (same ▸ known)
      simp [known, other, expected, Language.mem_one]
    · by_cases slash : c = '/'
      · subst slash
        simp [slash_not_word, expected, Language.mem_one]
      · simp [known, slash, expected, Language.mem_one, Language.notMem_zero]
  | bad => simp [expected, Place.step, Language.notMem_zero]

private theorem mem_expected {place : Place} {text : Text} : text ∈ expected place ↔ place.read text = .part := by
  induction text generalizing place with
  | nil => exact nil_mem_expected
  | cons c text ih =>
    rw [cons_mem_expected, ih]
    rfl

end Names

/-- A name is accepted if a reader gets to the end of it inside the last part. -/
theorem checkName_iff {name : Text} : checkName name = true ↔ Place.headStart.read name = .part := by
  rw [checkName, RegularExpression.rmatch_iff_matches', Names.nameRegex_language]
  exact @Names.mem_expected .headStart name

end Pos2.Server
