import Pos2.Server.Names

/-! Which names share their path. A dash beside a slash, or two dashes where there
could be a part of one dash, read in two ways. -/

namespace Pos2.Server

/-! ### Encoded names -/

theorem encode_append (first later : Text) : encode (first ++ later) = encode first ++ encode later := by
  simp only [encode, replace, List.flatMap_append]

@[simp] theorem encode_nil : encode [] = [] := rfl

@[simp] theorem encode_dash (rest : Text) : encode ('-' :: rest) = '-' :: '-' :: encode rest := rfl

@[simp] theorem encode_slash (rest : Text) : encode ('/' :: rest) = '-' :: encode rest := rfl

private theorem encode_other {c : Char} (dash : c ≠ '-') (slash : c ≠ '/') (rest : Text) :
    encode (c :: rest) = c :: encode rest := by
  simp [encode, replace, dash, slash]

/-- What an encoded name begins with. -/
theorem encode_cases {c : Char} {name rest : Text} (same : encode name = c :: rest) :
    (∃ name', c = '-' ∧ name = '-' :: name' ∧ rest = '-' :: encode name') ∨
    (∃ name', c = '-' ∧ name = '/' :: name' ∧ rest = encode name') ∨
    (∃ name', c ≠ '-' ∧ c ≠ '/' ∧ name = c :: name' ∧ rest = encode name') := by
  cases name with
  | nil => cases same
  | cons d name' =>
    by_cases dash : d = '-'
    · subst dash
      cases same
      exact .inl ⟨name', rfl, rfl, rfl⟩
    · by_cases slash : d = '/'
      · subst slash
        cases same
        exact .inr (.inl ⟨name', rfl, rfl, rfl⟩)
      · rw [encode_other dash slash] at same
        cases same
        exact .inr (.inr ⟨name', dash, slash, rfl, rfl⟩)

private theorem encode_dash_cases {name rest : Text} (same : encode name = '-' :: rest) :
    (∃ name', name = '-' :: name' ∧ rest = '-' :: encode name') ∨
    (∃ name', name = '/' :: name' ∧ rest = encode name') := by
  rcases encode_cases same with ⟨name', _, dash⟩ | ⟨name', _, slash⟩ | ⟨_, impossible, _⟩
  · exact .inl ⟨name', dash⟩
  · exact .inr ⟨name', slash⟩
  · exact (impossible rfl).elim

private theorem encode_eq_nil {name : Text} (same : encode name = []) : name = [] := by
  cases name with
  | nil => rfl
  | cons c rest =>
    by_cases dash : c = '-'
    · subst dash
      cases same
    · by_cases slash : c = '/'
      · subst slash
        cases same
      · rw [encode_other dash slash] at same
        cases same

/-- Other characters than dashes and slashes are kept. -/
theorem mem_encode {c : Char} (dash : c ≠ '-') {name : Text} : c ∈ encode name ↔ c ∈ name ∧ c ≠ '/' := by
  induction name with
  | nil => simp
  | cons d name ih =>
    by_cases isDash : d = '-'
    · subst isDash
      simp [ih, dash]
    · by_cases isSlash : d = '/'
      · subst isSlash
        rw [encode_slash, List.mem_cons, List.mem_cons, ih]
        tauto
      · rw [encode_other isDash isSlash, List.mem_cons, List.mem_cons, ih]
        constructor
        · rintro (rfl | later)
          · exact ⟨.inl rfl, isSlash⟩
          · exact ⟨.inr later.1, later.2⟩
        · rintro ⟨here | later, slash⟩
          · exact .inl here
          · exact .inr ⟨later, slash⟩

/-- Without slashes an encoded name reads in one way. -/
theorem encode_cancel {start name rest : Text} (plain : '/' ∉ start) (plain' : '/' ∉ name)
    (same : encode name = encode start ++ rest) : ∃ name', name = start ++ name' ∧ encode name' = rest := by
  induction start generalizing name with
  | nil => exact ⟨name, rfl, same⟩
  | cons c start ih =>
    simp only [List.mem_cons, not_or] at plain
    by_cases dash : c = '-'
    · subst dash
      rw [encode_dash, List.cons_append, List.cons_append] at same
      rcases encode_dash_cases same with ⟨name', rfl, rest'⟩ | ⟨name', rfl, _⟩
      · obtain ⟨name'', rfl, last⟩ := ih plain.2 (List.not_mem_of_not_mem_cons plain') (List.cons.inj rest').2.symm
        exact ⟨name'', rfl, last⟩
      · exact (plain' (List.mem_cons_self ..)).elim
    · rw [encode_other dash (Ne.symm plain.1), List.cons_append] at same
      rcases encode_cases same with ⟨_, impossible, _⟩ | ⟨_, impossible, _⟩ | ⟨name', _, _, rfl, rest'⟩
      · exact (dash impossible).elim
      · exact (dash impossible).elim
      · obtain ⟨name'', rfl, last⟩ := ih plain.2 (List.not_mem_of_not_mem_cons plain') rest'.symm
        exact ⟨name'', rfl, last⟩

/-! ### Accepted names -/

namespace Place
variable {place : Place} {c : Char} {text : Text}

private theorem read_append (first later : Text) : place.read (first ++ later) = (place.read first).read later :=
  List.foldl_append

private theorem read_cons : place.read (c :: text) = (place.step c).read text := rfl

@[simp] theorem read_bad : bad.read text = bad := by
  induction text with
  | nil => rfl
  | cons c text ih => exact ih

/-- Inside the part that a place belongs to. -/
def inside : Place → Place
  | .headStart | .head => .head
  | .partStart | .part => .part
  | .bad => .bad

private theorem step_word (known : c ∈ wordChars) : place.step c = place.inside := by
  cases place <;> simp [step, known, inside]

/-- Where a slash may come next, the reader is inside a part, and has just read a
word character. -/
theorem step_slash (read : (place.step c).step '/' ≠ bad) : c ∈ wordChars := by
  by_contra unknown
  apply read
  cases place with
  | head =>
    rw [step, if_neg unknown]
    split
    · rfl
    · split <;> rfl
  | part =>
    rw [step, if_neg unknown]
    split <;> rfl
  | _ => simp [step, unknown]

private theorem head_slash : head.step '/' = partStart := by
  simp [step, Names.slash_not_word]

private theorem part_slash : part.step '/' = partStart := by
  simp [step, Names.slash_not_word]

private theorem slash_follows (read : place.step '/' ≠ bad) : place = head ∨ place = part := by
  cases place with
  | head => exact .inl rfl
  | part => exact .inr rfl
  | _ => simp [step, Names.slash_not_word] at read

/-- A reader at the start of a part wants a word character, and is inside a part
from then on. -/
theorem partStart_read (read : partStart.read text = part) :
    ∃ c rest, text = c :: rest ∧ c ∈ wordChars ∧ part.read rest = part := by
  cases text with
  | nil => cases read
  | cons c rest =>
    by_cases known : c ∈ wordChars
    · rw [read_cons, step_word known] at read
      exact ⟨c, rest, rfl, known, read⟩
    · rw [read_cons, step, if_neg known, read_bad] at read
      cases read

/-- Inside a part there are word characters and slashes only. -/
theorem part_read (read : part.read (c :: text) = part) :
    c ∈ wordChars ∧ part.read text = part ∨ c = '/' ∧ partStart.read text = part := by
  by_cases known : c ∈ wordChars
  · rw [read_cons, step_word known] at read
    exact .inl ⟨known, read⟩
  · by_cases slash : c = '/'
    · subst slash
      rw [read_cons, part_slash] at read
      exact .inr ⟨rfl, read⟩
    · rw [read_cons, step, if_neg known, if_neg slash, read_bad] at read
      cases read

private theorem partStart_part (read : partStart.read text = part) : part.read text = part := by
  obtain ⟨c, rest, rfl, known, later⟩ := partStart_read read
  rwa [read_cons, step_word known]

private theorem part_chars (read : part.read text = part) : ∀ c ∈ text, c ∈ wordChars ∨ c = '/' := by
  induction text with
  | nil => exact fun _ => nofun
  | cons d text ih =>
    have here : (d ∈ wordChars ∨ d = '/') ∧ part.read text = part := by
      rcases part_read read with ⟨known, later⟩ | ⟨slash, later⟩
      · exact ⟨.inl known, later⟩
      · exact ⟨.inr slash, partStart_part later⟩
    intro c member
    rcases List.mem_cons.mp member with rfl | member
    · exact here.1
    · exact ih here.2 c member

/-- A part may as well be the end of the first part, if another one follows. -/
theorem head_read (read : part.read text = part) (slash : '/' ∈ text) : head.read text = part := by
  induction text with
  | nil => cases slash
  | cons c text ih =>
    rcases part_read read with ⟨known, later⟩ | ⟨rfl, later⟩
    · have other : c ≠ '/' := fun same => Names.slash_not_word (same ▸ known)
      rw [read_cons, step_word known]
      exact ih later ((List.mem_cons.mp slash).resolve_left (Ne.symm other))
    · rwa [read_cons, head_slash]

/-- The end of the first part may as well be a later part, if it has no dots. -/
theorem part_of_head (read : head.read text = part) (undotted : '.' ∉ text) : part.read text = part := by
  induction text with
  | nil => rfl
  | cons c text ih =>
    by_cases known : c ∈ wordChars
    · rw [read_cons, step_word known] at read ⊢
      exact ih read (List.not_mem_of_not_mem_cons undotted)
    · by_cases slash : c = '/'
      · subst slash
        rw [read_cons, head_slash] at read
        rwa [read_cons, part_slash]
      · have dot : c ≠ '.' := fun same => undotted (same ▸ List.mem_cons_self ..)
        rw [read_cons, step, if_neg known, if_neg dot, if_neg slash, read_bad] at read
        cases read

private theorem step_early (read : place.step c = head ∨ place.step c = headStart) :
    c ≠ '/' ∧ (place = head ∨ place = headStart) := by
  by_cases known : c ∈ wordChars
  · rw [step_word known] at read
    refine ⟨fun same => Names.slash_not_word (same ▸ known), ?_⟩
    cases place <;> simp [inside] at read ⊢
  · cases place with
    | head =>
      refine ⟨?_, .inl rfl⟩
      rintro rfl
      rw [head_slash] at read
      rcases read with impossible | impossible <;> cases impossible
    | part =>
      rw [step, if_neg known] at read
      split at read <;> simp at read
    | _ => simp [step, known] at read

/-- In the first part there has been no slash. -/
theorem no_slash (read : headStart.read text = head ∨ headStart.read text = headStart) : '/' ∉ text := by
  induction text using List.reverseRecOn with
  | nil => exact nofun
  | append_singleton text c ih =>
    rw [read_append] at read
    obtain ⟨other, earlier⟩ := step_early read
    simp [ih earlier, Ne.symm other]

private theorem step_late (read : place.step c = part ∨ place.step c = partStart) :
    c = '/' ∨ place = part ∨ place = partStart := by
  by_cases known : c ∈ wordChars
  · rw [step_word known] at read
    cases place <;> simp [inside] at read ⊢
  · cases place with
    | head =>
      rw [step, if_neg known] at read
      split at read
      · simp at read
      · split at read
        next slash => exact .inl slash
        next => simp at read
    | part => exact .inr (.inl rfl)
    | _ => simp [step, known] at read

/-- Every part but the first one comes behind a slash. -/
theorem has_slash (read : headStart.read text = part ∨ headStart.read text = partStart) : '/' ∈ text := by
  induction text using List.reverseRecOn with
  | nil => rcases read with impossible | impossible <;> cases impossible
  | append_singleton text c ih =>
    rw [read_append] at read
    rcases step_late read with rfl | later
    · simp
    · exact List.mem_append_left _ (ih later)

end Place

/-- An accepted name around one of its slashes. -/
structure Slash (before after : Text) : Prop where
  place : Place.headStart.read before = .head ∨ Place.headStart.read before = .part
  word : ∃ start c, before = start ++ [c] ∧ c ∈ wordChars
  read : Place.partStart.read after = .part

private theorem slash_of_accepted {before after : Text}
    (accepted : Place.headStart.read (before ++ '/' :: after) = .part) :
    Slash before after := by
  rw [Place.read_append, Place.read_cons] at accepted
  have good : (Place.headStart.read before).step '/' ≠ .bad := by
    intro bad
    rw [bad, Place.read_bad] at accepted
    cases accepted
  have place := Place.slash_follows good
  refine ⟨place, ?_, ?_⟩
  · induction before using List.reverseRecOn with
    | nil => simp [Place.read, Place.step, Names.slash_not_word] at good
    | append_singleton start c _ =>
      rw [Place.read_append] at good
      exact ⟨start, c, rfl, Place.step_slash good⟩
  · rcases place with place | place
    · rwa [place, Place.head_slash] at accepted
    · rwa [place, Place.part_slash] at accepted

/-! ### Names that share their path -/

/-- A dash beside a slash, two dashes that could be a part between two slashes, and
a part of one dash where there are slashes enough. -/
inductive Ambiguous : Text → Prop where
  | dashSlash (before after : Text) {c : Char} (known : c ∈ wordChars) :
      Ambiguous (before ++ c :: '-' :: '/' :: after)
  | slashDash (before after : Text) {c : Char} (known : c ∈ wordChars) :
      Ambiguous (before ++ '/' :: '-' :: c :: after)
  | twoDashes (before after : Text) {c d : Char} (first : c ∈ wordChars) (last : d ∈ wordChars)
      (undotted : '.' ∉ after) : Ambiguous (before ++ c :: '-' :: '-' :: d :: after)
  | dashPart (before after : Text) (slashes : '/' ∈ before ∨ '/' ∈ after) :
      Ambiguous (before ++ '/' :: '-' :: '/' :: after)

section
variable {name other : Text}

private theorem encode_cons (c : Char) (rest : Text) : encode (c :: rest) = encode [c] ++ encode rest :=
  encode_append [c] rest

private theorem dash_word : '-' ∈ wordChars := by decide

/-- A word character leaves a reader inside a part. -/
theorem Place.inside_cases {place : Place} {text : Text} (read : place.inside.read text = .part) :
    place.inside = .head ∨ place.inside = .part := by
  cases place with
  | bad =>
    rw [inside, read_bad] at read
    cases read
  | headStart | head => exact .inl rfl
  | partStart | part => exact .inr rfl

private theorem Place.inside_slash {place : Place} (inside : place = .head ∨ place = .part) :
    place.step '/' = .partStart ∧ place.step '-' = place := by
  rcases inside with rfl | rfl
  · exact ⟨head_slash, step_word dash_word⟩
  · exact ⟨part_slash, step_word dash_word⟩

/-- In such a name a dash stands beside another one or beside a slash. -/
theorem Ambiguous.marks (ambiguous : Ambiguous name) :
    ['-', '/'] <:+: name ∨ ['/', '-'] <:+: name ∨ ['-', '-'] <:+: name := by
  cases ambiguous with
  | @dashSlash before after c => exact .inl ⟨before ++ [c], after, by simp⟩
  | @slashDash before after c => exact .inr (.inl ⟨before, c :: after, by simp⟩)
  | @twoDashes before after c d => exact .inr (.inr ⟨before ++ [c], d :: after, by simp⟩)
  | dashPart before after => exact .inr (.inl ⟨before, '/' :: after, by simp⟩)

/-- An accepted name that reads in two ways has the path of another one. -/
theorem Ambiguous.shares (ambiguous : Ambiguous name) (accepted : Place.headStart.read name = .part) :
    ∃ other, Place.headStart.read other = .part ∧ other ≠ name ∧ encode other = encode name := by
  cases ambiguous with
  | @dashSlash before after c known =>
    rw [Place.read_append, Place.read_cons, Place.step_word known] at accepted
    obtain ⟨slash, dash⟩ := Place.inside_slash (Place.inside_cases accepted)
    rw [Place.read_cons, Place.read_cons, dash, slash] at accepted
    refine ⟨before ++ c :: '/' :: '-' :: after, ?_, by simp, ?_⟩
    · rw [Place.read_append, Place.read_cons, Place.step_word known, Place.read_cons, slash, Place.read_cons,
        Place.step_word dash_word]
      exact Place.partStart_part accepted
    · rw [encode_append, encode_append, encode_cons c ('/' :: _), encode_cons c ('-' :: _)]
      rfl
  | @slashDash before after c known =>
    obtain ⟨place, _, read⟩ := slash_of_accepted accepted
    obtain ⟨slash, dash⟩ := Place.inside_slash place
    refine ⟨before ++ '-' :: '/' :: c :: after, ?_, by simp, ?_⟩
    · rw [Place.read_append, Place.read_cons, Place.read_cons, dash, slash, Place.read_cons, Place.step_word known]
      rwa [Place.read_cons, Place.step_word dash_word, Place.read_cons, Place.step_word known] at read
    · rw [encode_append, encode_append]
      rfl
  | @twoDashes before after c d first last undotted =>
    rw [Place.read_append, Place.read_cons, Place.step_word first] at accepted
    have inside := Place.inside_cases accepted
    obtain ⟨slash, dash⟩ := Place.inside_slash inside
    have stays : (Place.headStart.read before).inside.inside = (Place.headStart.read before).inside := by
      cases Place.headStart.read before <;> rfl
    rw [Place.read_cons, Place.read_cons, dash, dash, Place.read_cons, Place.step_word last, stays] at accepted
    refine ⟨before ++ c :: '/' :: '-' :: '/' :: d :: after, ?_, by simp, ?_⟩
    · rw [Place.read_append, Place.read_cons, Place.step_word first, Place.read_cons, slash, Place.read_cons,
        Place.step_word dash_word, Place.read_cons, Place.read_cons, Place.step_word last]
      rcases inside with head | part
      · rw [head] at accepted
        exact Place.part_of_head accepted undotted
      · rwa [part] at accepted
    · rw [encode_append, encode_append, encode_cons c ('/' :: _), encode_cons c ('-' :: _)]
      rfl
  | dashPart before after slashes =>
    obtain ⟨place, _, read⟩ := slash_of_accepted accepted
    obtain ⟨_, dash⟩ := Place.inside_slash place
    refine ⟨before ++ '-' :: '-' :: after, ?_, by simp, ?_⟩
    · rw [Place.read_append, Place.read_cons, Place.read_cons, dash, dash]
      rcases place with head | part
      · rw [head]
        have plain := Place.no_slash (.inl head)
        exact Place.head_read (Place.partStart_part read) (slashes.resolve_left plain)
      · rw [part]
        exact Place.partStart_part read
    · rw [encode_append, encode_append]
      rfl

/-- Where two names differ first. -/
theorem first_difference (different : name ≠ other) :
    ∃ start rest rest', name = start ++ rest ∧ other = start ++ rest' ∧ rest.head? ≠ rest'.head? := by
  induction name generalizing other with
  | nil =>
    cases other with
    | nil => exact (different rfl).elim
    | cons d later => exact ⟨[], [], d :: later, rfl, rfl, nofun⟩
  | cons c name ih =>
    cases other with
    | nil => exact ⟨[], c :: name, [], rfl, rfl, nofun⟩
    | cons d later =>
      by_cases same : c = d
      · subst same
        obtain ⟨start, rest, rest', rfl, rfl, heads⟩ := ih fun same => different (same ▸ rfl)
        exact ⟨c :: start, rest, rest', rfl, rfl, heads⟩
      · exact ⟨[], c :: name, d :: later, rfl, rfl, fun heads => same (Option.some.inj heads)⟩

/-- Two names of one path differ first where one has a dash and the other a slash. -/
theorem first_dash (different : name ≠ other) (same : encode name = encode other) :
    ∃ start rest rest',
      (name = start ++ '-' :: rest ∧ other = start ++ '/' :: rest' ∧ '-' :: encode rest = encode rest') ∨
      (name = start ++ '/' :: rest ∧ other = start ++ '-' :: rest' ∧ encode rest = '-' :: encode rest') := by
  obtain ⟨start, rest, rest', rfl, rfl, heads⟩ := first_difference different
  rw [encode_append, encode_append, List.append_cancel_left_eq] at same
  cases rest with
  | nil =>
    rw [encode_eq_nil same.symm] at heads
    exact (heads rfl).elim
  | cons c rest =>
    by_cases dash : c = '-'
    · subst dash
      rcases encode_dash_cases same.symm with ⟨later, rfl, _⟩ | ⟨later, rfl, rest'⟩
      · exact (heads rfl).elim
      · exact ⟨start, rest, later, .inl ⟨rfl, rfl, rest'⟩⟩
    · by_cases slash : c = '/'
      · subst slash
        rcases encode_dash_cases same.symm with ⟨later, rfl, rest'⟩ | ⟨later, rfl, _⟩
        · exact ⟨start, rest, later, .inr ⟨rfl, rfl, rest'⟩⟩
        · exact (heads rfl).elim
      · rw [encode_other dash slash] at same
        rcases encode_cases same.symm with ⟨_, impossible, _⟩ | ⟨_, impossible, _⟩ | ⟨later, _, _, rfl, _⟩
        · exact (dash impossible).elim
        · exact (dash impossible).elim
        · exact (heads rfl).elim

/-- A text behind a slash that an encoded dash can begin with begins with a dash. -/
theorem dash_of_encode {text rest : Text} (read : Place.partStart.read text = .part)
    (same : encode text = '-' :: rest) : ∃ text', text = '-' :: text' ∧ rest = '-' :: encode text' ∧
      Place.part.read text' = .part := by
  obtain ⟨c, text', rfl, known, later⟩ := Place.partStart_read read
  rcases encode_dash_cases same with ⟨_, this, encoded⟩ | ⟨_, this, _⟩
  · cases this
    exact ⟨text', rfl, encoded, later⟩
  · cases this
    exact (Names.slash_not_word known).elim

/-- Characters of a name are those of another one whose path contains its path. -/
theorem chars_of_encode {text later : Text} (read : Place.part.read later = .part)
    (contained : ∀ c ∈ encode text, c ∈ encode later) : ∀ c ∈ text, c ∈ wordChars ∨ c = '/' := by
  intro c member
  by_cases dash : c = '-'
  · exact .inl (dash ▸ dash_word)
  · by_cases slash : c = '/'
    · exact .inr slash
    · have present := contained c ((mem_encode dash).mpr ⟨member, slash⟩)
      exact Place.part_chars read c ((mem_encode dash).mp present).1

private theorem dot_not_known : ¬ ('.' ∈ wordChars ∨ '.' = '/') := by
  simp [Names.dot_not_word]

/-- Here the name has a dash where the other one has a slash. -/
theorem ambiguous_at_dash {start rest rest' : Text}
    (accepted' : Place.headStart.read (start ++ '/' :: rest') = .part)
    (same : '-' :: encode rest = encode rest') : Ambiguous (start ++ '-' :: rest) := by
  obtain ⟨_, ⟨start, c, rfl, known⟩, read⟩ := slash_of_accepted accepted'
  obtain ⟨later, rfl, encoded, read'⟩ := dash_of_encode read same.symm
  rw [List.append_assoc, List.singleton_append]
  rcases encode_dash_cases encoded with ⟨last, rfl, encoded'⟩ | ⟨last, rfl, _⟩
  · have chars : ∀ d ∈ last, d ∈ wordChars ∨ d = '/' := by
      apply chars_of_encode read'
      intro d member
      rw [encoded']
      exact List.mem_cons_of_mem _ member
    cases last with
    | nil =>
      rcases encode_dash_cases encoded' with ⟨_, _, impossible⟩ | ⟨end_, rfl, nothing⟩
      · cases impossible
      · rw [encode_eq_nil nothing.symm] at read'
        cases read'
    | cons d last =>
      rcases chars d (List.mem_cons_self ..) with word | rfl
      · refine .twoDashes start last known word ?_
        intro dot
        exact dot_not_known (chars '.' (List.mem_cons_of_mem d dot))
      · have dashes := Ambiguous.dashSlash (start ++ [c]) last dash_word
        rwa [List.append_assoc] at dashes
  · exact .dashSlash start last known

/-- A dash between two slashes, and then another dash between slashes. -/
theorem ambiguous_twice {start rest : Text} (read : Place.part.read rest = .part) (more : rest ≠ []) :
    Ambiguous (start ++ '/' :: '-' :: '/' :: '-' :: rest) := by
  cases rest with
  | nil => exact (more rfl).elim
  | cons c rest =>
    rcases Place.part_read read with ⟨known, _⟩ | ⟨rfl, _⟩
    · have dashes := Ambiguous.slashDash (start ++ ['/', '-']) rest known
      rwa [List.append_assoc] at dashes
    · exact .dashPart start _ (.inr (by simp))

private theorem nonempty_of_encode {text later : Text} (read : Place.partStart.read later = .part)
    (same : encode text = encode later) : text ≠ [] := by
  rintro rfl
  rw [encode_eq_nil same.symm] at read
  cases read

/-- Here the name has a slash where the other one has a dash, and behind it a dash
and a part where the other one goes on with a part of its own. -/
theorem ambiguous_beside {start rest rest' : Text} (read : Place.part.read rest = .part)
    (read' : Place.partStart.read rest' = .part) (same : encode rest = encode rest') :
    Ambiguous (start ++ '/' :: '-' :: rest) := by
  cases rest with
  | nil => exact (nonempty_of_encode read' same rfl).elim
  | cons c rest =>
    rcases Place.part_read read with ⟨known, _⟩ | ⟨rfl, read⟩
    · exact .slashDash start rest known
    · obtain ⟨later, rfl, encoded, more⟩ := dash_of_encode read' same.symm
      obtain ⟨last, rfl, encoded', read⟩ := dash_of_encode read encoded
      apply ambiguous_twice read
      rcases encode_dash_cases encoded' with ⟨_, rfl, dash⟩ | ⟨_, rfl, slash⟩
      · rintro rfl
        cases dash
      · exact nonempty_of_encode more slash

/-- Here the name has a part of one dash where the other one has two dashes. -/
theorem ambiguous_dashPart {start rest rest' : Text}
    (accepted' : Place.headStart.read (start ++ '-' :: '-' :: rest') = .part)
    (read : Place.partStart.read rest = .part) (same : encode rest = encode rest') :
    Ambiguous (start ++ '/' :: '-' :: '/' :: rest) := by
  by_cases before : '/' ∈ start
  · exact .dashPart start rest (.inl before)
  by_cases after : '/' ∈ rest
  · exact .dashPart start rest (.inr after)
  have slash : '/' ∈ rest' := by
    simpa [before] using Place.has_slash (.inl accepted')
  obtain ⟨x, y, rfl, plain⟩ := List.eq_append_cons_of_mem slash
  rw [encode_append, encode_slash] at same
  obtain ⟨z, rfl, encoded⟩ := encode_cancel plain after same
  have accepted : Place.headStart.read ((start ++ '-' :: '-' :: x) ++ '/' :: y) = .part := by simpa using accepted'
  obtain ⟨_, ⟨start', c, ends, known⟩, read'⟩ := slash_of_accepted accepted
  have plain' : '/' ∉ z := fun slash => after (List.mem_append_right x slash)
  rcases encode_dash_cases encoded with ⟨z, rfl, dash⟩ | ⟨z, rfl, _⟩
  · obtain ⟨y, rfl, dash', read''⟩ := dash_of_encode read' dash
    rcases encode_dash_cases dash' with ⟨last, rfl, encoded'⟩ | ⟨_, rfl, _⟩
    · have more : last ≠ [] := by
        rcases encode_dash_cases encoded' with ⟨_, rfl, more⟩ | ⟨_, rfl, more⟩
        · rintro rfl
          cases more
        · exact nonempty_of_encode read'' more
      have chars := Place.part_chars (Place.partStart_part read)
      induction x using List.reverseRecOn with
      | nil =>
        have dashes := Ambiguous.slashDash (start ++ ['/', '-']) last dash_word
        rwa [List.append_assoc] at dashes
      | append_singleton x d _ =>
        have same : d = c := by
          have split : (start ++ '-' :: '-' :: x) ++ [d] = start' ++ [c] := by simpa using ends
          exact (List.append_inj_right' split rfl |> List.cons.inj).1
        subst same
        cases last with
        | nil => exact (more rfl).elim
        | cons e last =>
          have word : e ∈ wordChars := by
            have member : e ∈ x ++ [d] ++ '-' :: '-' :: e :: last := by simp
            refine (chars e member).resolve_right ?_
            rintro rfl
            exact after (by simp)
          have undotted : '.' ∉ last := fun dot => dot_not_known (chars '.' (by simp [dot]))
          have dashes := Ambiguous.twoDashes (start ++ '/' :: '-' :: '/' :: x) last known word undotted
          simpa using dashes
    · exact (plain' (by simp)).elim
  · exact (plain' (List.mem_cons_self ..)).elim

/-- Here the name has a slash where the other one has a dash. -/
theorem ambiguous_at_slash {start rest rest' : Text}
    (accepted : Place.headStart.read (start ++ '/' :: rest) = .part)
    (accepted' : Place.headStart.read (start ++ '-' :: rest') = .part)
    (same : encode rest = '-' :: encode rest') : Ambiguous (start ++ '/' :: rest) := by
  obtain ⟨_, _, read⟩ := slash_of_accepted accepted
  obtain ⟨rest, rfl, encoded, read⟩ := dash_of_encode read same
  rcases encode_dash_cases encoded with ⟨rest', rfl, dash⟩ | ⟨rest', rfl, slash⟩
  · rcases encode_dash_cases dash with ⟨last, rfl, _⟩ | ⟨last, rfl, encoded'⟩
    · exact .slashDash start last dash_word
    · exact ambiguous_dashPart accepted' read encoded'.symm
  · have beside : Slash (start ++ ['-']) rest' := slash_of_accepted (by simpa using accepted')
    exact ambiguous_beside read beside.read slash

private theorem shared_ambiguous (accepted : Place.headStart.read name = .part)
    (accepted' : Place.headStart.read other = .part)
    (same : encode other = encode name) (different : other ≠ name) : Ambiguous name := by
  obtain ⟨start, rest, rest', ⟨rfl, rfl, encoded⟩ | ⟨rfl, rfl, encoded⟩⟩ := first_dash (Ne.symm different) same.symm
  · exact ambiguous_at_dash accepted' encoded
  · exact ambiguous_at_slash accepted accepted' encoded

theorem nameToPath_eq (accepted : checkName name = true) : nameToPath name = .ok (encode name) := by
  rw [nameToPath, accepted]
  rfl

/-- One component of a path. -/
structure SafeComponent (path : Text) : Prop where
  nonempty : path ≠ []
  separator : '/' ∉ path
  dot : path ≠ ".".toList
  dots : path ≠ "..".toList

private theorem encode_safe (accepted : checkName name = true) : SafeComponent (encode name) := by
  have dash : '-' ∈ encode name := by
    obtain ⟨before, after, rfl, _⟩ := List.eq_append_cons_of_mem (Place.has_slash (.inl (checkName_iff.mp accepted)))
    rw [encode_append, encode_slash]
    simp
  refine ⟨List.ne_nil_of_mem dash, ?_, ?_, ?_⟩
  · intro slash
    exact ((mem_encode (by decide)).mp slash).2 rfl
  · intro same
    rw [same] at dash
    revert dash
    decide
  · intro same
    rw [same] at dash
    revert dash
    decide

/-- A name whose path, database and handlers are its own. -/
structure KeptApart (name : Text) : Prop where
  component : ∃ path, nameToPath name = .ok path ∧ SafeComponent path
  unique : ∀ other, checkName other = true → nameToPath other = nameToPath name → other = name
  database : ∀ userId other, checkName other = true → dbPath userId other = dbPath userId name → other = name
  selected : ∀ path names, nameToPath name = .ok path → (∀ other ∈ names, checkName other = true) →
    name ∈ names → selectApp path names = .ok (some name)

private theorem dbPath_inj {userId : Int} (accepted : checkName name = true) (accepted' : checkName other = true)
    (same : dbPath userId other = dbPath userId name) : nameToPath other = nameToPath name := by
  rw [dbPath, dbPath, nameToPath_eq accepted, nameToPath_eq accepted'] at same
  rw [nameToPath_eq accepted, nameToPath_eq accepted']
  have texts := Except.ok.inj same
  rw [List.append_cancel_right_eq, List.append_cancel_left_eq] at texts
  rw [texts]

private theorem selectApp_own {names : List Text} {path : Text} (here : nameToPath name = .ok path)
    (unique : ∀ other, checkName other = true → nameToPath other = nameToPath name → other = name)
    (accepted : ∀ other ∈ names, checkName other = true) (member : name ∈ names) :
    selectApp path names = .ok (some name) := by
  induction names with
  | nil => cases member
  | cons first names ih =>
    have known := accepted first (List.mem_cons_self ..)
    rw [selectApp, nameToPath_eq known]
    dsimp only
    split
    next same =>
      have own := unique first known (by rw [nameToPath_eq known, here, same])
      rw [own]
    next other =>
      refine ih (fun later member => accepted later (List.mem_cons_of_mem first member)) ?_
      refine (List.mem_cons.mp member).resolve_left ?_
      rintro rfl
      rw [nameToPath_eq known] at here
      exact other (Except.ok.inj here)

/-- An accepted name is kept apart from all others exactly if it does not read in
two ways. -/
theorem name_kept_apart (name : Text) (accepted : checkName name = true) : KeptApart name ↔ ¬ Ambiguous name := by
  constructor
  · intro apart ambiguous
    obtain ⟨other, accepted', different, same⟩ := ambiguous.shares (checkName_iff.mp accepted)
    have known := checkName_iff.mpr accepted'
    exact different (apart.unique other known (by rw [nameToPath_eq known, nameToPath_eq accepted, same]))
  · intro plain
    have unique (other : Text) (known : checkName other = true) (same : nameToPath other = nameToPath name) :
        other = name := by
      by_contra different
      rw [nameToPath_eq known, nameToPath_eq accepted] at same
      exact plain (shared_ambiguous (checkName_iff.mp accepted) (checkName_iff.mp known) (Except.ok.inj same) different)
    refine ⟨⟨encode name, nameToPath_eq accepted, encode_safe accepted⟩, unique, ?_, ?_⟩
    · intro userId other known same
      exact unique other known (dbPath_inj accepted known same)
    · intro path names here known member
      exact selectApp_own here unique known member

theorem name_kept_apart_plain : KeptApart "my-org/app".toList := by
  refine (name_kept_apart "my-org/app".toList (checkName_iff.mpr (by decide))).mpr fun ambiguous => ?_
  obtain dashSlash | slashDash | dashes := ambiguous.marks
  · exact absurd dashSlash (by decide)
  · exact absurd slashDash (by decide)
  · exact absurd dashes (by decide)

/-- Two accepted names, one path and one database. -/
theorem names_share_a_path :
    checkName "a-/b".toList = true ∧ checkName "a/-b".toList = true ∧
    nameToPath "a-/b".toList = .ok "a---b".toList ∧ nameToPath "a/-b".toList = .ok "a---b".toList ∧
    dbPath 1 "a-/b".toList = dbPath 1 "a/-b".toList := by
  have first : checkName "a-/b".toList = true := checkName_iff.mpr (by decide)
  have second : checkName "a/-b".toList = true := checkName_iff.mpr (by decide)
  refine ⟨first, second, nameToPath_eq first, nameToPath_eq second, ?_⟩
  rw [dbPath, dbPath, nameToPath_eq first, nameToPath_eq second]
  rfl

end
end Pos2.Server
