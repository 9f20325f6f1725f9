import Pos2.Bundler.Main

/-! `get_dependencies` collects the reported paths and all that their links lead to. -/

namespace Pos2.Bundler
open Calls Links

variable {α : Type} {fs : Tree Text α} {links : Nat} {library : α → Prop}

/-- Every path leads to a library, and where a link leads is there too, or comes next. -/
structure Collected (fs : Tree Text α) (links : Nat) (library : α → Prop) (next : Option PathBuf) (deps : List PathBuf) :
    Prop where
  resolves : ∀ path ∈ deps, ∃ count ≤ links, ∃ content, library content ∧ fs.Reaches count path content
  chains : ∀ path ∈ deps, ∀ target, fs.lstat links path = some (.link target) →
    target.from path ∈ deps ∨ some (target.from path) = next

theorem Collected.nil : Collected fs links library none [] := ⟨fun _ => nofun, fun _ => nofun⟩

theorem Collected.insert {path : PathBuf} {deps : List PathBuf} {next : Option PathBuf}
    (collected : Collected fs links library (some path) deps)
    (resolves : ∃ count ≤ links, ∃ content, library content ∧ fs.Reaches count path content)
    (chain : ∀ target, fs.lstat links path = some (.link target) → some (target.from path) = next) :
    Collected fs links library next (deps ++ [path]) := by
  constructor
  · intro other member
    rcases List.mem_append.mp member with member | member
    · exact collected.resolves other member
    · rw [List.mem_singleton.mp member]
      exact resolves
  · intro other member target link
    rcases List.mem_append.mp member with member | member
    · rcases collected.chains other member target link with member | same
      · exact .inl (List.mem_append_left _ member)
      · obtain same := Option.some.inj same
        exact .inl (List.mem_append_right _ (List.mem_singleton.mpr same))
    · obtain rfl := List.mem_singleton.mp member
      exact .inr (chain target link)

private theorem collectFileAndSymlinkChain_collected {turns count : Nat} {path : PathBuf} {deps : List PathBuf}
    {content : α}
    (collected : Collected fs links library (some path) deps) (member : library content)
    (reaches : fs.Reaches count path content) (followed : count ≤ links) (enough : count < turns) :
    ∃ after, collectFileAndSymlinkChain fs links turns path deps = some (.ok after) ∧
      Collected fs links library none after ∧ path ∈ after ∧ ∀ dep ∈ deps, dep ∈ after := by
  induction turns generalizing count path deps with
  | zero => cases enough
  | succ turns ih =>
    rw [collectFileAndSymlinkChain]
    split
    next visited =>
      refine ⟨deps, rfl, ⟨collected.resolves, ?_⟩, visited, fun _ dep => dep⟩
      intro other inside target link
      rcases collected.chains other inside target link with inside | same
      · exact .inl inside
      · obtain same := Option.some.inj same
        exact .inl (same ▸ visited)
    next new =>
      have resolves : ∃ count ≤ links, ∃ content, library content ∧ fs.Reaches count path content :=
        ⟨count, followed, content, member, reaches⟩
      rcases reaches.lstat followed with file | ⟨target, link, less, shorter, onward⟩
      · rw [file]
        refine ⟨_, rfl, collected.insert resolves ?_, by simp, fun _ dep => List.mem_append_left _ dep⟩
        intro target link
        cases file.symm.trans link
      · rw [link]
        have next : Collected fs links library (some (target.from path)) (deps ++ [path]) := by
          refine collected.insert resolves ?_
          intro other found
          cases link.symm.trans found
          rfl
        obtain ⟨after, ends, kept, -, grown⟩ := ih next onward (by omega) (by omega)
        exact ⟨after, ends, kept, grown _ (by simp), fun dep inside => grown dep (List.mem_append_left _ inside)⟩

theorem collectAll_collected {turns : Nat} {reported deps : List PathBuf}
    (resolves : ∀ path ∈ reported, ∃ count ≤ links, ∃ content, library content ∧ fs.Reaches count path content)
    (enough : links < turns) (collected : Collected fs links library none deps) :
    ∃ after, collectAll fs links turns reported deps = some (.ok after) ∧ Collected fs links library none after ∧
      (∀ path ∈ reported, path ∈ after) ∧ ∀ dep ∈ deps, dep ∈ after := by
  induction reported generalizing deps with
  | nil => exact ⟨deps, rfl, collected, nofun, fun _ dep => dep⟩
  | cons path rest ih =>
    obtain ⟨count, followed, content, member, reaches⟩ := resolves path (.head _)
    have next : Collected fs links library (some path) deps :=
      ⟨collected.resolves, fun other inside target link => (collected.chains other inside target link).imp_right nofun⟩
    obtain ⟨middle, ends, kept, here, grown⟩ :=
      collectFileAndSymlinkChain_collected next member reaches followed (followed.trans_lt enough)
    obtain ⟨after, finished, closed, others, more⟩ := ih (fun path inside => resolves path (.tail _ inside)) kept
    rw [collectAll, ends]
    refine ⟨after, finished, closed, ?_, fun dep inside => more dep (grown dep inside)⟩
    intro other inside
    cases inside with
    | head => exact more path here
    | tail _ inside => exact others other inside

theorem Collected.perm {next : Option PathBuf} {order deps : List PathBuf} (perm : order.Perm deps)
    (collected : Collected fs links library next deps) : Collected fs links library next order := by
  constructor
  · intro path member
    exact collected.resolves path (perm.mem_iff.mp member)
  · intro path member target link
    rw [perm.mem_iff]
    exact collected.chains path (perm.mem_iff.mp member) target link

end Pos2.Bundler
