import Mathlib.Logic.Function.Basic
import Pos2.Calls.Cut
import Pos2.Text
import Pos2.Tunnel.Streams

/-! The certificate on disk, in `tunnel/src/cert.rs`: `write_certs` overwrites three files in
place, one after the other, and `load_certs` reads each on its own. -/

namespace Pos2

/-- The bytes of a text in UTF-8. -/
def Text.utf8 (text : Text) : List UInt8 := (String.ofList text).toByteArray.data.toList

def Text.ofUtf8 (bytes : List UInt8) : Option Text := (String.fromUTF8? ⟨bytes.toArray⟩).map String.toList

theorem Text.ofUtf8_eq_some {bytes : List UInt8} {text : Text} : Text.ofUtf8 bytes = some text ↔ bytes = text.utf8 := by
  constructor
  · intro read
    obtain ⟨string, decoded, rfl⟩ := Option.map_eq_some_iff.mp read
    unfold String.fromUTF8? at decoded
    split at decoded
    · cases decoded
      simp [Text.utf8, String.fromUTF8]
    · cases decoded
  · rintro rfl
    have same : (⟨(Text.utf8 text).toArray⟩ : ByteArray) = (String.ofList text).toByteArray := by simp [Text.utf8]
    have valid := (String.ofList text).isValidUTF8
    simp only [Text.ofUtf8, same, String.fromUTF8?, valid, dite_true, Option.map_some, Option.some.injEq]
    exact String.toList_ofList

@[simp] theorem Text.ofUtf8_utf8 (text : Text) : Text.ofUtf8 text.utf8 = some text := ofUtf8_eq_some.mpr rfl

theorem Text.utf8_inj {first second : Text} (same : first.utf8 = second.utf8) : first = second := by
  have read := Text.ofUtf8_utf8 first
  rw [same, Text.ofUtf8_utf8] at read
  exact (Option.some.inj read).symm

namespace Tunnel
open Calls Fallible

/-- `serde_json` on the dates of a certificate. -/
structure Json (ν : Type) where
  toStringPretty : ν → Except String Text
  fromReader : Text → Except String ν

/-- What was printed reads back, and an object that is cut off does not read at all. -/
structure Json.Lawful {ν : Type} (json : Json ν) : Prop where
  round : ∀ value text, json.toStringPretty value = .ok text → json.fromReader text = .ok value
  cut : ∀ value text, json.toStringPretty value = .ok text → ∀ n < text.utf8.length, ∀ short,
    Text.ofUtf8 (text.utf8.take n) = some short → ∀ other, json.fromReader short ≠ .ok other

structure LoadedCertificate (ν : Type) where
  info : ν
  cert : Text
  key : Text
  deriving DecidableEq

inductive FileCall where
  | create (path : Text)
  | writeAll (path : Text) (bytes : Chunk)
  | syncAll (path : Text)
  | open_ (path : Text)
  | readToString (path : Text)

/-- A file that is not there reads as `none`. -/
abbrev FileCall.Value : FileCall → Type
  | .readToString _ => Option Text
  | _ => Unit

abbrev FileCalls := Interface.fallible FileCall FileCall.Value

/-- A function that uses files. -/
abbrev Filed := Fallible FileCalls

def file (call : FileCall) : Filed call.Value := ask call

structure Environment where
  baseDir : Text

def Environment.joinPath (env : Environment) (path : Text) : Text :=
  if path.head? = some '/' then path
  else if env.baseDir = [] ∨ env.baseDir.getLast? = some '/' then env.baseDir ++ path
  else env.baseDir ++ '/' :: path

def certFileName (env : Environment) (name : Text) : Text := env.joinPath ("acme/".toList ++ name ++ ".pem".toList)

def keyFileName (env : Environment) (name : Text) : Text := env.joinPath ("acme/".toList ++ name ++ "-key.pem".toList)

def infoFileName (env : Environment) (name : Text) : Text := env.joinPath ("acme/".toList ++ name ++ "-info.json".toList)

/-- `tokio::fs::write` -/
def writeFile (path : Text) (bytes : Chunk) : Filed Unit := do
  file (.create path)
  file (.writeAll path bytes)

/-- The file is written in the background, and `sync_all` keeps an error of that to itself: `write_all` is taken to
report it. -/
def writePrivateFile (path : Text) (contents : Chunk) : Filed Unit := do
  file (.create path)
  file (.writeAll path contents)
  file (.syncAll path)

def syncDir (path : Text) : Filed Unit := do
  file (.open_ path)
  file (.syncAll path)

def readOptionalFile (path : Text) : Filed (Option Text) := file (.readToString path)

section
variable {ν : Type} (json : Json ν)

def readOptionalJsonFile (path : Text) : Filed (Option ν) := do
  match ← readOptionalFile path with
  | none => return none
  | some contents => return some (← ofExcept (json.fromReader contents))

def loadCerts (env : Environment) (name : Text) : Filed (Option (LoadedCertificate ν)) := do
  match ← readOptionalJsonFile json (infoFileName env name) with
  | none => return none
  | some info =>
    match ← readOptionalFile (certFileName env name) with
    | none => return none
    | some cert =>
      match ← readOptionalFile (keyFileName env name) with
      | none => return none
      | some key => return some ⟨info, cert, key⟩

def writeCerts (env : Environment) (name : Text) (cert : LoadedCertificate ν) : Filed Unit := do
  let info ← ofExcept (json.toStringPretty cert.info)
  writeFile (infoFileName env name) info.utf8
  writeFile (certFileName env name) cert.cert.utf8
  writePrivateFile (keyFileName env name) cert.key.utf8
  syncDir (env.joinPath "acme".toList)

end

abbrev Files := Text → Option Chunk

/-- How a file reads. -/
def textAt (files : Files) (path : Text) : Except String (Option Text) :=
  match files path with
  | none => .ok none
  | some bytes =>
    match Text.ofUtf8 bytes with
    | none => .error "stream did not contain valid UTF-8"
    | some text => .ok (some text)

/-- A disk that gives up after so many changes. A file that is emptied is one, and so is each byte written. -/
structure Disk where
  files : Files
  left : Nat

def Disk.serve : (call : FileCall) → Disk → Except String call.Value × Disk
  | .create path, disk =>
    match disk.left with
    | 0 => (.error "cut off", disk)
    | left + 1 => (.ok (), ⟨Function.update disk.files path (some []), left⟩)
  | .writeAll path bytes, disk =>
    (if bytes.length ≤ disk.left then .ok () else .error "cut off",
      ⟨Function.update disk.files path ((disk.files path).map fun content => content ++ bytes.take disk.left),
        disk.left - bytes.length⟩)
  | .syncAll _, disk => (.ok (), disk)
  | .open_ _, disk => (.ok (), disk)
  | .readToString path, disk => (textAt disk.files path, disk)

/-- What any disk does with a call: what was asked, or, when it fails, a part of it. -/
def answersFiles : Handler FileCalls Files
  | .create path, before, reply, after =>
    after = Function.update before path (some []) ∨ (∃ error, reply = .error error) ∧ after = before
  | .writeAll path bytes, before, reply, after =>
    ∃ written, after = Function.update before path ((before path).map fun content => content ++ bytes.take written) ∧
      (reply = .ok () → bytes.length ≤ written)
  | .syncAll _, before, _, after => after = before
  | .open_ _, before, _, after => after = before
  | .readToString path, before, reply, after =>
    (reply = textAt before path ∨ ∃ error, reply = .error error) ∧ after = before

section
variable {ν : Type} (json : Json ν) (env : Environment) (name : Text)

/-- What `write_certs` leaves when it is cut off, or fails, after so many changes. -/
def cutOff (files : Files) (new : LoadedCertificate ν) (changes : Nat) : Files :=
  ((writeCerts json env name new).run Disk.serve ⟨files, changes⟩).2.files

/-- What a `load_certs` gets that nothing interrupts. -/
def loaded (files : Files) : Except String (Option (LoadedCertificate ν)) :=
  ((loadCerts json env name).run Disk.serve ⟨files, 0⟩).1

/-- The triple is on disk. -/
def Stored (files : Files) (cert : LoadedCertificate ν) : Prop :=
  ∃ info, json.toStringPretty cert.info = .ok info ∧ files (infoFileName env name) = some info.utf8 ∧
    files (certFileName env name) = some cert.cert.utf8 ∧ files (keyFileName env name) = some cert.key.utf8

end

/-! ### Every cut is one after so many changes -/

/-- Without a change left nothing changes. -/
theorem run_exhausted {α : Type} (program : Program FileCalls α) (files : Files) :
    (program.run Disk.serve ⟨files, 0⟩).2 = ⟨files, 0⟩ := by
  induction program with
  | done value => rfl
  | call request next ih =>
    have same : (Disk.serve request ⟨files, 0⟩).2 = ⟨files, 0⟩ := by
      cases request with
      | writeAll path bytes => simp [Disk.serve]
      | create path => rfl
      | syncAll path => rfl
      | open_ path => rfl
      | readToString path => rfl
    rw [Program.run_call, same]
    exact ih _

/-- A call that succeeds, and as many changes after it as one likes. -/
theorem serve_ok {call : FileCall} {files between : Files} {value : call.Value}
    (served : answersFiles call files (.ok value) between) (left : Nat) :
    ∃ changes, Disk.serve call ⟨files, changes⟩ = (.ok value, ⟨between, left⟩) := by
  cases call with
  | create path =>
    rcases served with rfl | ⟨⟨error, impossible⟩, -⟩
    · exact ⟨left + 1, rfl⟩
    · cases impossible
  | writeAll path bytes =>
    obtain ⟨written, rfl, whole⟩ := served
    refine ⟨bytes.length + left, ?_⟩
    have given : bytes.take (bytes.length + left) = bytes.take written := by
      rw [List.take_of_length_le (Nat.le_add_right _ _), List.take_of_length_le (whole rfl)]
    simp [Disk.serve, given]
  | syncAll path =>
    cases served
    exact ⟨left, rfl⟩
  | open_ path =>
    cases served
    exact ⟨left, rfl⟩
  | readToString path =>
    obtain ⟨same | ⟨error, impossible⟩, rfl⟩ := served
    · exact ⟨left, by rw [Disk.serve, ← same]⟩
    · cases impossible

/-- A call that fails, with nothing changed after it. -/
theorem serve_error {call : FileCall} {files between : Files} {error : String}
    (served : answersFiles call files (.error error) between) :
    ∃ changes, (Disk.serve call ⟨files, changes⟩).2.files = between ∧
      ((Disk.serve call ⟨files, changes⟩).2.left = 0 ∨ ∃ error', (Disk.serve call ⟨files, changes⟩).1 = .error error') := by
  cases call with
  | create path =>
    rcases served with rfl | ⟨-, rfl⟩
    · exact ⟨1, rfl, .inl rfl⟩
    · exact ⟨0, rfl, .inl rfl⟩
  | writeAll path bytes =>
    obtain ⟨written, rfl, -⟩ := served
    by_cases whole : bytes.length ≤ written
    · refine ⟨bytes.length, ?_, .inl (Nat.sub_self _)⟩
      simp [Disk.serve, List.take_of_length_le whole]
    · exact ⟨written, rfl, .inr ⟨"cut off", if_neg whole⟩⟩
  | syncAll path =>
    cases served
    exact ⟨0, rfl, .inl rfl⟩
  | open_ path =>
    cases served
    exact ⟨0, rfl, .inl rfl⟩
  | readToString path =>
    obtain ⟨-, rfl⟩ := served
    exact ⟨0, rfl, .inl rfl⟩

/-- Wherever a function that stops at its first failure is cut off, it has made some number of changes. -/
theorem leaves_run {α : Type} {program : Program FileCalls (Except String α)} (stops : Stops program)
    {files now : Files} (leaves : program.Leaves answersFiles files now) :
    ∃ changes, now = (program.run Disk.serve (Disk.mk files changes)).2.files := by
  induction program generalizing files with
  | done result =>
    cases leaves
    exact ⟨0, rfl⟩
  | call request next ih =>
    cases leaves with
    | here => exact ⟨0, by rw [run_exhausted]⟩
    | @call _ _ _ reply between _ served rest =>
      cases reply with
      | ok value =>
        obtain ⟨changes, goesOn⟩ := ih (.ok value) (stops.2 value) rest
        obtain ⟨before, same⟩ := serve_ok served changes
        exact ⟨before, by rw [Program.run_call, same]; exact goesOn⟩
      | error error =>
        obtain ⟨error', ends⟩ := stops.1 error
        have last : now = between := by
          rw [ends] at rest
          cases rest
          rfl
        obtain ⟨changes, same, failed⟩ := serve_error served
        refine ⟨changes, ?_⟩
        rw [last, ← same, Program.run_call]
        rcases after : Disk.serve request ⟨files, changes⟩ with ⟨reply, ⟨files', left⟩⟩
        simp only [after] at failed ⊢
        rcases failed with rfl | ⟨error'', rfl⟩
        · rw [run_exhausted]
        · obtain ⟨_, ends⟩ := stops.1 error''
          rw [ends]
          rfl

end Tunnel
end Pos2
