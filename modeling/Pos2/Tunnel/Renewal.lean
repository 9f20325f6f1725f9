import Mathlib.Data.Nat.SuccPred
import Mathlib.Data.List.TakeDrop
import Pos2.Tunnel.Certs

/-! What `load_certs` finds after a `write_certs` that was cut off: the old certificate or the
new one only where the cut does no harm, and between two files a mixture of both. -/

namespace Pos2.Tunnel
open Calls Fallible

/-! ### The three files -/

theorem Environment.joinPath_inj {env : Environment} {first second : Text} (base : Text)
    (same : env.joinPath ("acme/".toList ++ base ++ first) = env.joinPath ("acme/".toList ++ base ++ second)) :
    first = second := by
  have relative (rest : Text) : ("acme/".toList ++ base ++ rest).head? ≠ some '/' := by
    simp
  simp only [Environment.joinPath, if_neg (relative first), if_neg (relative second)] at same
  split at same
  · exact List.append_cancel_left (List.append_cancel_left same)
  · have same := (List.cons.inj (List.append_cancel_left same)).2
    exact List.append_cancel_left same

section
variable (env : Environment) (name : Text)

theorem cert_ne_info : certFileName env name ≠ infoFileName env name := fun same =>
  absurd (Environment.joinPath_inj name same) (by decide)

theorem key_ne_info : keyFileName env name ≠ infoFileName env name := fun same =>
  absurd (Environment.joinPath_inj name same) (by decide)

theorem key_ne_cert : keyFileName env name ≠ certFileName env name := fun same =>
  absurd (Environment.joinPath_inj name same) (by decide)

end

/-- What a file holds after so many changes. -/
def overwritten (bytes : Chunk) (old : Option Chunk) : Nat → Option Chunk
  | 0 => old
  | changes + 1 => some (bytes.take changes)

private theorem overwritten_some (bytes before : Chunk) (changes : Nat) :
    ∃ now, overwritten bytes (some before) changes = some now := by
  cases changes
  · exact ⟨before, rfl⟩
  · exact ⟨_, rfl⟩

private theorem overwritten_whole {bytes : Chunk} {changes : Nat} (whole : bytes.length < changes)
    (before : Option Chunk) :
    overwritten bytes before changes = some bytes := by
  obtain ⟨written, rfl⟩ := Nat.exists_eq_succ_of_ne_zero (Nat.ne_zero_of_lt whole)
  exact congrArg some (List.take_of_length_le (Nat.le_of_lt_succ whole))

/-- A file is written in one change more than it has bytes. -/
theorem writeFile_run (path : Text) (bytes : Chunk) (files : Files) (left : Nat) :
    (writeFile path bytes).run Disk.serve ⟨files, left⟩ =
      (if bytes.length < left then .ok () else .error "cut off",
        ⟨Function.update files path (overwritten bytes (files path) left), left - (bytes.length + 1)⟩) := by
  cases left with
  | zero => simp [writeFile, file, run_bind, Disk.serve, overwritten]
  | succ left => simp [writeFile, file, run_bind, Disk.serve, overwritten]

/-- Syncing changes nothing more. -/
theorem writePrivateFile_run (path : Text) (contents : Chunk) (disk : Disk) :
    (writePrivateFile path contents).run Disk.serve disk = (writeFile path contents).run Disk.serve disk := by
  have bound : writePrivateFile path contents = (writeFile path contents >>= fun _ => file (.syncAll path)) := by
    simp [writePrivateFile, writeFile]
  rw [bound, run_bind]
  rcases (writeFile path contents).run Disk.serve disk with ⟨error | _, after⟩ <;> rfl

private theorem syncDir_run (path : Text) (disk : Disk) : (syncDir path).run Disk.serve disk = (.ok (), disk) := by
  simp [syncDir, file, run_bind, Disk.serve]

section
variable {ν : Type} {json : Json ν} {env : Environment} {name : Text}

/-- The files at the cut: each is as it was until those before it are whole. -/
theorem cutOff_at (env : Environment) (name : Text) {new : LoadedCertificate ν} {info : Text}
    (printed : json.toStringPretty new.info = .ok info) (files : Files) (changes : Nat) :
    cutOff json env name files new changes (infoFileName env name) =
        overwritten info.utf8 (files (infoFileName env name)) changes ∧
      cutOff json env name files new changes (certFileName env name) =
        overwritten new.cert.utf8 (files (certFileName env name)) (changes - (info.utf8.length + 1)) ∧
      cutOff json env name files new changes (keyFileName env name) =
        overwritten new.key.utf8 (files (keyFileName env name))
          (changes - (info.utf8.length + 1) - (new.cert.utf8.length + 1)) := by
  have apart := cert_ne_info env name
  have apart' := key_ne_info env name
  have apart'' := key_ne_cert env name
  unfold cutOff writeCerts
  by_cases first : info.utf8.length < changes
  · by_cases second : new.cert.utf8.length < changes - (info.utf8.length + 1)
    · by_cases third : new.key.utf8.length < changes - (info.utf8.length + 1) - (new.cert.utf8.length + 1)
      all_goals simp [run_bind, printed, writePrivateFile_run, writeFile_run, syncDir_run, first, second, third, apart,
        apart', apart'', Ne.symm apart, Ne.symm apart', Ne.symm apart'']
    · have none_ : changes - (info.utf8.length + 1) - (new.cert.utf8.length + 1) = 0 := by omega
      simp [run_bind, printed, writeFile_run, first, second, none_, overwritten, apart, apart', apart'', Ne.symm apart]
  · have none_ : changes - (info.utf8.length + 1) = 0 := by omega
    simp [run_bind, printed, writeFile_run, first, none_, overwritten, apart, apart']

/-- Without a text for the dates nothing is written. -/
theorem cutOff_unprinted {new : LoadedCertificate ν} {error : String} (printed : json.toStringPretty new.info = .error error)
    (files : Files) (changes : Nat) : cutOff json env name files new changes = files := by
  simp [cutOff, writeCerts, run_bind, printed]

/-! ### What is loaded -/

theorem readOptionalFile_run (path : Text) (disk : Disk) :
    (readOptionalFile path).run Disk.serve disk = (textAt disk.files path, disk) := rfl

private theorem textAt_utf8 {files : Files} {path text : Text} (at_ : files path = some text.utf8) :
    textAt files path = .ok (some text) := by
  simp [textAt, at_]

private theorem loaded_missing {files : Files} (missing : files (infoFileName env name) = none) :
    loaded json env name files = .ok none := by
  simp [loaded, loadCerts, readOptionalJsonFile, readOptionalFile_run, run_bind, textAt, missing]

/-- The dates that are cut off stop it. -/
theorem loaded_torn {files : Files} {bytes : Chunk} (at_ : files (infoFileName env name) = some bytes)
    (torn : ∀ text, Text.ofUtf8 bytes = some text → ∀ info, json.fromReader text ≠ .ok info) :
    ∃ error, loaded json env name files = .error error := by
  cases read : Text.ofUtf8 bytes with
  | none => simp [loaded, loadCerts, readOptionalJsonFile, readOptionalFile_run, run_bind, textAt, at_, read]
  | some text =>
    cases parsed : json.fromReader text with
    | ok info => exact (torn text read info parsed).elim
    | error error =>
      simp [loaded, loadCerts, readOptionalJsonFile, readOptionalFile_run, run_bind, textAt, at_, read, parsed]

/-- Behind dates that read back, the other two files decide. -/
theorem loaded_dated {files : Files} {text : Text} {info : ν} (at_ : files (infoFileName env name) = some text.utf8)
    (parsed : json.fromReader text = .ok info) :
    loaded json env name files =
      match textAt files (certFileName env name) with
      | .error error => .error error
      | .ok none => .ok none
      | .ok (some cert) =>
        match textAt files (keyFileName env name) with
        | .error error => .error error
        | .ok none => .ok none
        | .ok (some key) => .ok (some ⟨info, cert, key⟩) := by
  rcases certAt : textAt files (certFileName env name) with error | _ | cert
  · simp [loaded, loadCerts, readOptionalJsonFile, readOptionalFile_run, run_bind, textAt_utf8 at_, parsed, certAt]
  · simp [loaded, loadCerts, readOptionalJsonFile, readOptionalFile_run, run_bind, textAt_utf8 at_, parsed, certAt]
  · rcases keyAt : textAt files (keyFileName env name) with error | _ | key
    all_goals simp [loaded, loadCerts, readOptionalJsonFile, readOptionalFile_run, run_bind, textAt_utf8 at_, parsed,
      certAt, keyAt]

theorem textAt_some {files : Files} {path text : Text} {bytes : Chunk} (at_ : files path = some bytes) :
    textAt files path = .ok (some text) ↔ bytes = text.utf8 := by
  rw [← Text.ofUtf8_eq_some]
  cases read : Text.ofUtf8 bytes <;> simp [textAt, at_, read]

/-- All three files are there. -/
theorem loaded_eq_some {files : Files} {text : Text} {info : ν} {cert key : Chunk}
    (infoAt : files (infoFileName env name) = some text.utf8) (parsed : json.fromReader text = .ok info)
    (certAt : files (certFileName env name) = some cert) (keyAt : files (keyFileName env name) = some key)
    (triple : LoadedCertificate ν) :
    loaded json env name files = .ok (some triple) ↔
      info = triple.info ∧ cert = triple.cert.utf8 ∧ key = triple.key.utf8 := by
  rw [loaded_dated infoAt parsed, ← textAt_some certAt, ← textAt_some keyAt]
  rcases textAt files (certFileName env name) with error | _ | cert
  · simp
  · simp
  · rcases textAt files (keyFileName env name) with error | _ | key
    · simp
    · simp
    · cases triple
      simp

theorem loaded_ne_none {files : Files} {text : Text} {info : ν} {cert key : Chunk}
    (infoAt : files (infoFileName env name) = some text.utf8) (parsed : json.fromReader text = .ok info)
    (certAt : files (certFileName env name) = some cert) (keyAt : files (keyFileName env name) = some key) :
    loaded json env name files ≠ .ok none := by
  have there {path : Text} {bytes : Chunk} (at_ : files path = some bytes) : textAt files path ≠ .ok none := by
    cases read : Text.ofUtf8 bytes <;> simp [textAt, at_, read]
  rw [loaded_dated infoAt parsed]
  rcases certRead : textAt files (certFileName env name) with error | _ | cert
  · simp
  · exact (there certAt certRead).elim
  · rcases keyRead : textAt files (keyFileName env name) with error | _ | key
    · simp
    · exact (there keyAt keyRead).elim
    · simp

/-! ### Old or new -/

/-- After so many changes a file holds what it did before. -/
def AsBefore (old new : Text) (changes : Nat) : Prop := changes = 0 ∨ new.utf8.take (changes - 1) = old.utf8

/-- After so many changes a file holds what it should. -/
def AsAfter (old new : Text) (changes : Nat) : Prop := new.utf8.length < changes ∨ changes = 0 ∧ old = new

private theorem overwritten_before {old new : Text} {changes : Nat} :
    overwritten new.utf8 (some old.utf8) changes = some old.utf8 ↔ AsBefore old new changes := by
  cases changes <;> simp [overwritten, AsBefore]

private theorem overwritten_after {old new : Text} {changes : Nat} :
    overwritten new.utf8 (some old.utf8) changes = some new.utf8 ↔ AsAfter old new changes := by
  cases changes with
  | zero => simpa [overwritten, AsAfter] using ⟨Text.utf8_inj, congrArg Text.utf8⟩
  | succ changes => simp [overwritten, AsAfter, eq_comm]

/-- Nothing was written; or the dates were, and what is changed so far is as before, or what is not changed yet is as
it should be. -/
def Harmless (old new : LoadedCertificate ν) (info : Text) (changes : Nat) : Prop :=
  changes = 0 ∨ ∃ more, changes = info.utf8.length + 1 + more ∧
    (new.info = old.info ∧ AsBefore old.cert new.cert more ∧
        AsBefore old.key new.key (more - (new.cert.utf8.length + 1)) ∨
      AsAfter old.cert new.cert more ∧ AsAfter old.key new.key (more - (new.cert.utf8.length + 1)))

/-- Nothing was written; or the dates were, and the certificate has not been cut inside a character; or all was. -/
def FirstHarmless (new : LoadedCertificate ν) (info : Text) (changes : Nat) : Prop :=
  changes = 0 ∨ ∃ more, changes = info.utf8.length + 1 + more ∧
    (more = 0 ∨ more ≤ new.cert.utf8.length + 1 ∧ (Text.ofUtf8 (new.cert.utf8.take (more - 1))).isSome ∨
      new.cert.utf8.length + 1 + new.key.utf8.length < more)

/-- Dates that are not whole do not load. -/
theorem loaded_short (env : Environment) (name : Text) {new : LoadedCertificate ν} {info : Text} (lawful : json.Lawful)
    (printed : json.toStringPretty new.info = .ok info) (files : Files) {changes : Nat} (some_ : changes ≠ 0)
    (short : changes ≤ info.utf8.length) :
    ∃ error, loaded json env name (cutOff json env name files new changes) = .error error := by
  obtain ⟨infoAt, -, -⟩ := cutOff_at env name printed files changes
  obtain ⟨written, rfl⟩ := Nat.exists_eq_succ_of_ne_zero some_
  exact loaded_torn infoAt fun text read value => lawful.cut new.info info printed written short text read value

private theorem renewal_loads_iff {old new : LoadedCertificate ν} {info : Text} (lawful : json.Lawful)
    (printed : json.toStringPretty new.info = .ok info) {files : Files} (stored : Stored json env name files old)
    (changes : Nat) :
    (loaded json env name (cutOff json env name files new changes) = .ok (some old) ∨
        loaded json env name (cutOff json env name files new changes) = .ok (some new)) ↔
      Harmless old new info changes := by
  obtain ⟨before, printed', infoBefore, certBefore, keyBefore⟩ := stored
  obtain ⟨infoAt, certAt, keyAt⟩ := cutOff_at env name printed files changes
  rw [infoBefore] at infoAt
  rw [certBefore] at certAt
  rw [keyBefore] at keyAt
  by_cases untouched : changes = 0
  · subst untouched
    simp only [Harmless, true_or, iff_true]
    refine .inl ((loaded_eq_some infoAt (lawful.round _ _ printed') ?_ ?_ old).mpr ⟨rfl, rfl, rfl⟩)
    · simpa [overwritten] using certAt
    · simpa [overwritten] using keyAt
  by_cases short : changes ≤ info.utf8.length
  · obtain ⟨error, fails⟩ := loaded_short env name lawful printed files untouched short
    have harmful : ¬ Harmless old new info changes := by
      rintro (none_ | ⟨more, same, -⟩)
      · exact untouched none_
      · omega
    simp [fails, harmful]
  · obtain ⟨more, rfl⟩ := Nat.exists_eq_add_of_le (show info.utf8.length + 1 ≤ changes by omega)
    rw [Nat.add_sub_cancel_left] at certAt keyAt
    have dated : cutOff json env name files new (info.utf8.length + 1 + more) (infoFileName env name) = some info.utf8 :=
      infoAt.trans (overwritten_whole (by omega) _)
    obtain ⟨cert, certIs⟩ := overwritten_some new.cert.utf8 old.cert.utf8 more
    obtain ⟨key, keyIs⟩ := overwritten_some new.key.utf8 old.key.utf8 (more - (new.cert.utf8.length + 1))
    have reads := loaded_eq_some dated (lawful.round _ _ printed) (certAt.trans certIs) (keyAt.trans keyIs)
    have certs (text : Text) : cert = text.utf8 ↔ overwritten new.cert.utf8 (some old.cert.utf8) more = some text.utf8 := by
      rw [certIs, Option.some.injEq]
    have keys (text : Text) : key = text.utf8 ↔
        overwritten new.key.utf8 (some old.key.utf8) (more - (new.cert.utf8.length + 1)) = some text.utf8 := by
      rw [keyIs, Option.some.injEq]
    rw [reads, reads, certs, certs, keys, keys, overwritten_before, overwritten_before, overwritten_after,
      overwritten_after]
    simp only [Harmless, true_and]
    constructor
    · exact fun holds => .inr ⟨more, rfl, holds⟩
    · rintro (none_ | ⟨more', same, holds⟩)
      · exact (untouched none_).elim
      · obtain rfl : more = more' := by omega
        exact holds

/-- Between the certificate and its key the new certificate is loaded with the old key. -/
theorem loaded_between {old new : LoadedCertificate ν} {info : Text} (lawful : json.Lawful)
    (printed : json.toStringPretty new.info = .ok info) {files : Files} (stored : Stored json env name files old) :
    loaded json env name (cutOff json env name files new (info.utf8.length + 1 + (new.cert.utf8.length + 1))) =
      .ok (some ⟨new.info, new.cert, old.key⟩) := by
  obtain ⟨-, -, -, -, keyBefore⟩ := stored
  obtain ⟨infoAt, certAt, keyAt⟩ := cutOff_at env name printed files (info.utf8.length + 1 + (new.cert.utf8.length + 1))
  rw [overwritten_whole (by omega)] at infoAt
  rw [Nat.add_sub_cancel_left, overwritten_whole (by omega)] at certAt
  rw [Nat.add_sub_cancel_left, Nat.sub_self, keyBefore] at keyAt
  exact (loaded_eq_some infoAt (lawful.round _ _ printed) certAt keyAt _).mpr ⟨rfl, rfl, rfl⟩

private theorem first_loads_iff {new : LoadedCertificate ν} {info : Text} (lawful : json.Lawful)
    (printed : json.toStringPretty new.info = .ok info) {files : Files} (noInfo : files (infoFileName env name) = none)
    (noCert : files (certFileName env name) = none) (noKey : files (keyFileName env name) = none) (changes : Nat) :
    (loaded json env name (cutOff json env name files new changes) = .ok none ∨
        loaded json env name (cutOff json env name files new changes) = .ok (some new)) ↔
      FirstHarmless new info changes := by
  obtain ⟨infoAt, certAt, keyAt⟩ := cutOff_at env name printed files changes
  rw [noInfo] at infoAt
  rw [noCert] at certAt
  rw [noKey] at keyAt
  by_cases untouched : changes = 0
  · subst untouched
    simp only [FirstHarmless, true_or, iff_true]
    exact .inl (loaded_missing infoAt)
  by_cases short : changes ≤ info.utf8.length
  · obtain ⟨error, fails⟩ := loaded_short env name lawful printed files untouched short
    have harmful : ¬ FirstHarmless new info changes := by
      rintro (none_ | ⟨more, same, -⟩)
      · exact untouched none_
      · omega
    simp [fails, harmful]
  obtain ⟨more, rfl⟩ := Nat.exists_eq_add_of_le (show info.utf8.length + 1 ≤ changes by omega)
  rw [Nat.add_sub_cancel_left] at certAt keyAt
  have dated : cutOff json env name files new (info.utf8.length + 1 + more) (infoFileName env name) = some info.utf8 :=
    infoAt.trans (overwritten_whole (by omega) _)
  have reads := loaded_dated dated (lawful.round _ _ printed)
  have spelled : FirstHarmless new info (info.utf8.length + 1 + more) ↔
      more = 0 ∨ more ≤ new.cert.utf8.length + 1 ∧ (Text.ofUtf8 (new.cert.utf8.take (more - 1))).isSome ∨
        new.cert.utf8.length + 1 + new.key.utf8.length < more := by
    constructor
    · rintro (none_ | ⟨more', same, holds⟩)
      · exact (untouched none_).elim
      · obtain rfl : more = more' := by omega
        exact holds
    · exact fun holds => .inr ⟨more, rfl, holds⟩
  rw [spelled]
  cases more with
  | zero =>
    have missing : textAt (cutOff json env name files new (info.utf8.length + 1 + 0)) (certFileName env name) = .ok none := by
      simp [textAt, certAt, overwritten]
    simp [reads, missing]
  | succ written =>
    by_cases inside : written ≤ new.cert.utf8.length
    · -- the key is not there yet
      have none_ : written + 1 - (new.cert.utf8.length + 1) = 0 := by omega
      rw [none_] at keyAt
      have missing : textAt (cutOff json env name files new (info.utf8.length + 1 + (written + 1))) (keyFileName env name) =
          .ok none := by
        simp [textAt, keyAt, overwritten]
      have unfinished : ¬ new.cert.utf8.length + 1 + new.key.utf8.length < written + 1 := by omega
      cases read : Text.ofUtf8 (new.cert.utf8.take written) with
      | none => simp [reads, textAt, certAt, overwritten, read, unfinished]
      | some text =>
        have partly : textAt (cutOff json env name files new (info.utf8.length + 1 + (written + 1)))
            (certFileName env name) = .ok (some text) := by
          simp [textAt, certAt, overwritten, read]
        simp [reads, partly, missing, read, inside]
    · -- the key is there, whole or not
      have written_ : written + 1 - (new.cert.utf8.length + 1) = written - new.cert.utf8.length - 1 + 1 := by omega
      rw [written_] at keyAt
      have whole : new.cert.utf8.take written = new.cert.utf8 := List.take_of_length_le (by omega)
      have done : new.key.utf8.take (written - new.cert.utf8.length - 1) = new.key.utf8 ↔
          new.cert.utf8.length + 1 + new.key.utf8.length < written + 1 := by
        rw [eq_comm, List.take_self_eq_iff]
        omega
      have later : ¬ (written + 1 = 0 ∨ written + 1 ≤ new.cert.utf8.length + 1 ∧
          (Text.ofUtf8 (new.cert.utf8.take (written + 1 - 1))).isSome) := by omega
      rw [or_iff_right (loaded_ne_none dated (lawful.round _ _ printed) certAt keyAt),
        loaded_eq_some dated (lawful.round _ _ printed) certAt keyAt, ← or_assoc, or_iff_right later, whole, done]
      simp

private theorem writeCerts_stops (new : LoadedCertificate ν) : Stops (writeCerts json env name new) := by
  have file_ (call : FileCall) : Stops (file call) := Stops.ask call
  have write (path : Text) (bytes : Chunk) : Stops (writeFile path bytes) := (file_ _).bind fun _ => file_ _
  refine (Stops.ofExcept _).bind fun info => (write _ _).bind fun _ => (write _ _).bind fun _ => Stops.bind ?_ fun _ => ?_
  · exact (file_ _).bind fun _ => (file_ _).bind fun _ => file_ _
  · exact (file_ _).bind fun _ => file_ _

private theorem loaded_stored {files : Files} {cert : LoadedCertificate ν} (lawful : json.Lawful)
    (stored : Stored json env name files cert) : loaded json env name files = .ok (some cert) := by
  obtain ⟨info, printed, infoAt, certAt, keyAt⟩ := stored
  exact (loaded_eq_some infoAt (lawful.round _ _ printed) certAt keyAt cert).mpr ⟨rfl, rfl, rfl⟩

/-- Wherever `write_certs` is cut off it has made some number of changes, and exactly after these numbers is the old or
the new certificate loaded, or at first none. -/
theorem certs_change_whole_iff (lawful : json.Lawful) (env : Environment) (name : Text) (new : LoadedCertificate ν)
    (files : Files) :
    (∀ now, (writeCerts json env name new).Leaves answersFiles files now →
        ∃ changes, now = cutOff json env name files new changes) ∧
      ∀ changes,
        (∀ old, Stored json env name files old →
          ((loaded json env name (cutOff json env name files new changes) = .ok (some old) ∨
              loaded json env name (cutOff json env name files new changes) = .ok (some new)) ↔
            ∀ info, json.toStringPretty new.info = .ok info → Harmless old new info changes)) ∧
        (files (infoFileName env name) = none → files (certFileName env name) = none →
          files (keyFileName env name) = none →
          ((loaded json env name (cutOff json env name files new changes) = .ok none ∨
              loaded json env name (cutOff json env name files new changes) = .ok (some new)) ↔
            ∀ info, json.toStringPretty new.info = .ok info → FirstHarmless new info changes)) := by
  refine ⟨fun now leaves => leaves_run (writeCerts_stops new) leaves, fun changes => ?_⟩
  cases printed : json.toStringPretty new.info with
  | ok info =>
    simp only [Except.ok.injEq, forall_eq']
    exact ⟨fun old stored => renewal_loads_iff lawful printed stored changes,
      fun noInfo noCert noKey => first_loads_iff lawful printed noInfo noCert noKey changes⟩
  | error error =>
    rw [cutOff_unprinted printed]
    refine ⟨fun old stored => ?_, fun noInfo _ _ => ?_⟩
    · simp [loaded_stored lawful stored]
    · simp [loaded_missing noInfo]

end

/-! ### A renewal -/

namespace Renewal

/-- The dates before a renewal, and those after it. -/
def dates : Bool → Text
  | false =>
    "\x7b\n  \"renew_at\": \"2026-01-01T00:00:00Z\",\n  \"update_renew_info_at\": \"2025-12-01T00:00:00Z\"\n\x7d".toList
  | true =>
    "\x7b\n  \"renew_at\": \"2026-04-01T00:00:00Z\",\n  \"update_renew_info_at\": \"2026-03-01T00:00:00Z\"\n\x7d".toList

def json : Json Bool where
  toStringPretty renewed := .ok (dates renewed)
  fromReader text := if text = dates false then .ok false else if text = dates true then .ok true else .error "eof"

private theorem dates_length (renewed : Bool) : (dates renewed).utf8.length = 90 := by
  cases renewed <;> decide

private theorem json_lawful : json.Lawful where
  round := fun value text printed => by
    cases printed
    cases value <;> decide
  cut := fun value text printed n short read whole other parsed => by
    cases printed
    have same : read = dates other := by
      simp only [json] at parsed
      split at parsed
      next before =>
        cases parsed
        exact before
      next =>
        split at parsed
        next after =>
          cases parsed
          exact after
        next => cases parsed
    have cut := congrArg List.length (Text.ofUtf8_eq_some.mp whole)
    rw [same, dates_length, List.length_take_of_le (Nat.le_of_lt short)] at cut
    rw [dates_length] at short
    omega

def env : Environment := ⟨"/data".toList⟩

def old : LoadedCertificate Bool := ⟨false, "old cert".toList, "old key".toList⟩

def new : LoadedCertificate Bool := ⟨true, "new cert".toList, "new key".toList⟩

def files : Files := fun path =>
  if path = infoFileName env [] then some (dates false).utf8
  else if path = certFileName env [] then some old.cert.utf8
  else if path = keyFileName env [] then some old.key.utf8
  else none

theorem stored : Stored json env [] files old :=
  ⟨dates false, rfl, rfl, by simp [files, cert_ne_info], by simp [files, key_ne_info, key_ne_cert]⟩

/-- Cut off once the key is whole it leaves the new certificate. -/
theorem certs_change_whole_synced :
    loaded json env [] (cutOff json env [] files new (90 + 1 + (8 + 1 + (7 + 1)))) = .ok (some new) := by
  have printed : json.toStringPretty new.info = .ok (dates true) := rfl
  have infoLength := dates_length true
  have certLength : new.cert.utf8.length = 8 := by decide
  have keyLength : new.key.utf8.length = 7 := by decide
  have whole : Harmless old new (dates true) (90 + 1 + (8 + 1 + (7 + 1))) := by
    refine .inr ⟨8 + 1 + (7 + 1), by rw [infoLength], .inr ⟨.inl ?_, .inl ?_⟩⟩
    · omega
    · omega
  have either := (((certs_change_whole_iff json_lawful env [] new files).2 (90 + 1 + (8 + 1 + (7 + 1)))).1 old stored).mpr
    fun info same => Except.ok.inj (printed.symm.trans same) ▸ whole
  refine either.resolve_left fun still => ?_
  -- the dates of the old one are gone
  obtain ⟨infoAt, certAt, keyAt⟩ := cutOff_at env [] printed files (90 + 1 + (8 + 1 + (7 + 1)))
  rw [overwritten_whole (by omega)] at infoAt
  rw [overwritten_whole (by omega)] at certAt
  rw [overwritten_whole (by omega)] at keyAt
  have dated := ((loaded_eq_some infoAt (json_lawful.round _ _ printed) certAt keyAt old).mp still).1
  cases dated

/-- Cut off between the certificate and its key it leaves the new certificate with the old key. -/
theorem certs_mixed :
    Stored json env [] files old ∧
      loaded json env [] (cutOff json env [] files new (90 + 1 + (8 + 1))) = .ok (some ⟨true, new.cert, old.key⟩) ∧
      ¬ (loaded json env [] (cutOff json env [] files new (90 + 1 + (8 + 1))) = .ok (some old) ∨
        loaded json env [] (cutOff json env [] files new (90 + 1 + (8 + 1))) = .ok (some new)) := by
  have mixed : loaded json env [] (cutOff json env [] files new (90 + 1 + (8 + 1))) =
      .ok (some ⟨true, new.cert, old.key⟩) := by
    have printed : json.toStringPretty new.info = .ok (dates true) := rfl
    have between := loaded_between json_lawful printed stored
    have certLength : new.cert.utf8.length = 8 := by decide
    rw [dates_length, certLength] at between
    exact between
  refine ⟨stored, mixed, ?_⟩
  rw [mixed]
  decide

end Renewal
end Pos2.Tunnel
