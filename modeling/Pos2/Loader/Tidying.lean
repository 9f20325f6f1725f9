import Mathlib.Data.List.Dedup
import Pos2.Loader.Storing

/-! Cleaning up. What is removed is taken away in an order in which nothing that is
left refers to what is gone; but an extracted image is torn on the way. -/

namespace Pos2.Loader
open Calls

/-- The storage stays complete, no image comes in, and those that are kept stay. -/
structure Sheds (formats : Formats) (contents : Contents) (listed : Prop) (keep : List Text) (before after : Depot) : Prop where
  stocked : Stocked formats contents listed after.torn after.fs
  images : ∀ sha, Digest sha → after.fs (imagesDir ++ [sha]) ≠ none → before.fs (imagesDir ++ [sha]) ≠ none
  kept : ∀ sha ∈ keep, Digest sha → (before.fs (extractedDir ++ [sha]) ≠ none → after.fs (extractedDir ++ [sha]) ≠ none) ∧
    (sha ∈ after.torn → sha ∈ before.torn)
  links : ∀ path ∈ switches, after.fs path = before.fs path
  child : after.machine.child = before.machine.child

section
variable {formats : Formats} {contents : Contents} {listed : Prop} {keep : List Text} {before middle after : Depot}

theorem Sheds.refl (stocked : Stocked formats contents listed before.torn before.fs) :
    Sheds formats contents listed keep before before :=
  ⟨stocked, fun _ _ there => there, fun _ _ _ => ⟨id, id⟩, fun _ _ => rfl, rfl⟩

theorem Sheds.trans (first : Sheds formats contents listed keep before middle)
    (second : Sheds formats contents listed keep middle after) : Sheds formats contents listed keep before after where
  stocked := second.stocked
  images := fun sha digest there => first.images sha digest (second.images sha digest there)
  kept := fun sha member digest =>
    ⟨fun there => (second.kept sha member digest).1 ((first.kept sha member digest).1 there),
      fun torn => (first.kept sha member digest).2 ((second.kept sha member digest).2 torn)⟩
  links := fun path switch => (second.links path switch).trans (first.links path switch)
  child := second.child.trans first.child

end

private theorem sheds_course (formats : Formats) (contents : Contents) (listed : Prop) (keep : List Text) :
    Fallible.Course (Sheds formats contents listed keep) :=
  ⟨Sheds.trans, fun went => .refl went.stocked⟩

/-- The function removes some of it. -/
abbrev Tidies (formats : Formats) (contents : Contents) (listed : Prop) (heeds : Heeds) (keep : List Text) {α : Type}
    (post : α → Depot → Prop) (function : Loads α) (state : Depot) : Prop :=
  Fallible.Along (tending formats contents heeds) (Sheds formats contents listed keep) post function state

section
variable {formats : Formats} {contents : Contents} {listed : Prop} {heeds : Heeds} {keep : List Text} {state : Depot}
  {α β : Type} {middle : α → Depot → Prop} {post : β → Depot → Prop} {request : Request}

theorem Tidies.bind {first : Loads α} {rest : α → Loads β} (tidies : Tidies formats contents listed heeds keep middle first state)
    (then_ : ∀ value after, Sheds formats contents listed keep state after → middle value after →
      Tidies formats contents listed heeds keep post (rest value) after) :
    Tidies formats contents listed heeds keep post (first >>= rest) state :=
  Fallible.Along.bind (sheds_course formats contents listed keep) tidies then_

theorem Tidies.pure {value : β} (stocked : Stocked formats contents listed state.torn state.fs) (holds : post value state) :
    Tidies formats contents listed heeds keep post (Pure.pure value) state :=
  Fallible.Along.pure (.refl stocked) holds

/-- A call of which the error is inspected. -/
theorem Tidies.attempt {post : Except String request.Value → Depot → Prop}
    (answered : ∀ reply after, tending formats contents heeds request state reply after →
      Sheds formats contents listed keep state after ∧ post reply after) :
    Tidies formats contents listed heeds keep post (ask request).attempt state := by
  intro reply after served
  obtain ⟨sheds, holds⟩ := answered reply after served
  exact ⟨sheds, sheds, holds⟩

variable (proper : contents.Proper formats) (stocked : Stocked formats contents listed state.torn state.fs)
include proper stocked

theorem Aside.sheds {after : Depot} {reply : Except String request.Value} (aside : Aside (fun _ => False) request)
    (served : tending formats contents heeds request state reply after) : Sheds formats contents listed keep state after := by
  have goes : Goes formats contents listed (fun _ => False) state after := aside.goes proper stocked served
  refine ⟨goes.stocked, fun sha digest there => ?_, fun sha _ digest => ⟨?_, goes.torn sha digest⟩, goes.links, goes.child⟩
  · have same : after.fs (imagesDir ++ [sha]) = state.fs (imagesDir ++ [sha]) :=
      stocked.elsewhere aside.stores served fun reached =>
        (aside.apart _ reached).1 (digest.entry_stands images_stored)
    rwa [← same]
  · exact goes.stays extractedDir extracted_stored sha digest

/-- Functions that change nothing under a digest, whether they fail or not. -/
theorem aside_alone {ends : α → Prop} {function : Loads α} (uses : function.Uses (Aside fun _ => False) ends) :
    function.Alone (tending formats contents heeds) (Sheds formats contents listed keep)
      (fun after => Sheds formats contents listed keep state after ∧ Goes formats contents listed (fun _ => False) state after)
      (fun value after => ends value ∧ Sheds formats contents listed keep state after ∧
        Goes formats contents listed (fun _ => False) state after) state := by
  refine Fallible.Uses.alone uses ?_ ⟨.refl stocked, .refl stocked⟩
  intro request before reply after aside ⟨went, gone⟩ served
  have sheds : Sheds formats contents listed keep before after := aside.sheds proper went.stocked served
  exact ⟨sheds, went.trans sheds, gone.trans (aside.goes proper went.stocked served)⟩

/-- Functions that change nothing under a digest. -/
theorem Tidies.aside {ends : α → Prop} {function : Loads α} (uses : function.Uses (Aside fun _ => False) ends) :
    Tidies formats contents listed heeds keep (fun value _ => ends value) function state :=
  (aside_alone proper stocked uses).mono (fun _ went => went.1) fun _ _ ⟨ended, went, _⟩ => ⟨went, ended⟩

end

/-! ### Leftovers -/

section
variable {dir : Path}

private theorem removeDirAll_aside (stored : dir ∈ storageDirs) {name : Text} (temporary : ¬ Digest name) :
    (removeDirAll (dir ++ [name])).Uses (Aside fun _ => False) fun _ => True := by
  apply (ask_uses (.reads rfl)).bind
  intro below _
  apply Fallible.Uses.forM
  intro rest _
  refine ask_uses ⟨.remove name rest stored, fun path reached => ⟨?_, id⟩⟩
  rw [show path = _ from reached]
  exact entry_not_stands stored temporary (List.prefix_append _ _)

private theorem cleanTmpInDir_aside (stored : dir ∈ storageDirs) :
    (cleanTmpInDir dir).Uses (Aside fun _ => False) fun _ => True := by
  apply (ask_uses (.reads rfl)).bind
  intro names _
  refine (Fallible.Uses.forM ?_).bind ?_
  · intro oldName _
    cases stripped : oldName.stripPrefix "tmp-".toList with
    | none => exact .pure trivial
    | some trimmed =>
      have old : oldName = tmpName trimmed := Text.stripPrefix_eq_some.mp stripped
      subst old
      refine ask_uses ⟨.rename _ _ stored, fun path reached => ⟨?_, id⟩⟩
      rcases reached with below | below
      · exact entry_not_stands stored (tmp_temporary trimmed) below
      · exact entry_not_stands stored (removing_temporary trimmed) below
  · intro _ _
    apply (ask_uses (.reads rfl)).bind
    intro names _
    apply Fallible.Uses.forM
    intro name _
    split
    · exact .pure trivial
    · next removing =>
      have temporary : ¬ Digest name := fun digest => removing digest.2
      apply (ask_uses (.reads rfl)).attempt.bind
      intro result _
      match result with
      | .error _ => exact .pure trivial
      | .ok true => exact removeDirAll_aside stored temporary
      | .ok false =>
        refine ask_uses ⟨.removeFile name stored, fun path reached => ⟨?_, id⟩⟩
        rw [show path = _ from reached]
        exact entry_not_stands stored temporary List.prefix_rfl

end

/-! ### Removing a directory -/

theorem unpacked_finite (formats : Formats) (contents : Contents) (sha : Text) :
    ∃ paths : List Path, ∀ path, unpacked formats contents sha path ≠ none → path ∈ paths := by
  apply unpacked_keeps (fun tree => ∃ paths : List Path, ∀ path, tree path ≠ none → path ∈ paths)
  · refine ⟨[[]], fun path there => ?_⟩
    by_contra other
    rw [List.mem_singleton] at other
    exact there (if_neg other)
  · intro tree entry ⟨paths, covers⟩
    refine ⟨(entry.name :: entry.below) :: paths, fun path there => ?_⟩
    by_cases here : path = entry.name :: entry.below
    · rw [here]
      exact List.mem_cons_self ..
    · rw [Fs.unpack, List.nil_append, Fs.put_other _ _ here] at there
      exact List.mem_cons_of_mem _ (covers path there)

/-- The entries of a finite directory can be listed, the longest paths first. -/
theorem Fs.tree_of_finite {fs : Fs} {path : Path} (there : fs path ≠ none) (paths : List Path)
    (covers : ∀ rest, fs (path ++ rest) ≠ none → rest ∈ paths) : ∃ below, fs.tree path below := by
  let present := (paths.filter fun rest => (fs (path ++ rest)).isSome).dedup
  let longer (first later : Path) : Bool := later.length ≤ first.length
  have sorted : (present.mergeSort longer).Pairwise fun first later => longer first later = true := by
    apply List.pairwise_mergeSort
    · intro first middle last one other
      simp only [longer, decide_eq_true_eq] at one other ⊢
      omega
    · intro first later
      simp only [longer, Bool.or_eq_true, decide_eq_true_eq]
      omega
  have different : (present.mergeSort longer).Pairwise (· ≠ ·) :=
    (List.mergeSort_perm present longer).nodup_iff.mpr (List.nodup_dedup _)
  refine ⟨present.mergeSort longer, there, fun rest => ?_, (sorted.and different).imp fun apart below => ?_⟩
  · rw [List.mem_mergeSort, List.mem_dedup, List.mem_filter, Option.isSome_iff_ne_none]
    exact ⟨fun member => member.2, fun found => ⟨covers rest found, found⟩⟩
  · have long := of_decide_eq_true apart.1
    exact apart.2 (below.eq_of_length (Nat.le_antisymm below.length_le long))

/-! ### What is not kept -/

/-- A half-removed image is not overlooked. -/
def Lists (torn : List Text) : (request : Request) → Except String request.Value → Prop
  | .readDir path, .error _ => path = extractedDir → ∀ sha ∈ torn, ¬ Digest sha
  | _, _ => True

section
variable {formats : Formats} {contents : Contents} {listed : Prop} {heeds : Heeds} {keep kept : List Text} {state : Depot}

/-- Of all entries of a directory, those that are not kept are removed, whether it
works or not. -/
theorem sweep_tidies {dir : Path} {removeEntry : Path → Loads Unit} (stored : dir ∈ storageDirs)
    (invariant : List Text → Depot → Prop) (stocked : Stocked formats contents listed state.torn state.fs)
    (fails : ∀ error, heeds (.readDir dir) state (.error error) → invariant [] state)
    (starts : ∀ names, state.fs.names dir names → invariant names state)
    (keeps : ∀ name rest before, invariant (name :: rest) before → name ∈ keep → invariant rest before)
    (removes : ∀ name rest before, Stocked formats contents listed before.torn before.fs → invariant (name :: rest) before →
      name ∉ keep →
        Tidies formats contents listed heeds kept (fun _ after => invariant rest after) (removeEntry (dir ++ [name])).attempt
          before) :
    Tidies formats contents listed heeds kept (fun _ after => invariant [] after) (sweep dir keep removeEntry) state := by
  have lists : Tidies formats contents listed heeds kept (fun result after =>
      (∀ error, result = .error error → invariant [] after) ∧ ∀ names, result = .ok names → invariant names after) (ask (.readDir dir)).attempt state := by
    apply Tidies.attempt
    intro reply after served
    have heeded := served.2.2
    cases reads_depot rfl served
    refine ⟨.refl stocked, ?_⟩
    cases reply with
    | error error =>
      refine ⟨fun _ _ => fails error heeded, ?_⟩
      rintro _ ⟨⟩
    | ok names =>
      refine ⟨by rintro _ ⟨⟩, ?_⟩
      rintro _ ⟨⟩
      obtain ⟨⟨target, followed, _, named⟩, _⟩ := served.1.1.1
      obtain rfl := Option.some.inj ((Fs.follow_plain (stocked.linked.stored stored)).symm.trans followed)
      exact starts names named
  apply lists.bind
  intro result after sheds holds
  cases result with
  | error error => exact .pure sheds.stocked (holds.1 error rfl)
  | ok names =>
    let left (rest : List Text) (after : Depot) : Prop :=
      Stocked formats contents listed after.torn after.fs ∧ invariant rest after
    have start : left names after := ⟨sheds.stocked, holds.2 names rfl⟩
    refine (Fallible.Along.forM (sheds_course formats contents listed kept) left ?_ (.refl sheds.stocked) start).mono ?_
    · rintro name rest before ⟨stocked, holds⟩
      split
      · next among => exact Tidies.pure stocked ⟨stocked, keeps name rest before holds among⟩
      · next gone =>
        apply Tidies.bind (removes name rest before stocked holds gone)
        intro _ after sheds holds
        exact .pure sheds.stocked ⟨sheds.stocked, holds⟩
    · exact fun _ _ _ holds => holds.2

end

section
variable {formats : Formats} {contents : Contents} {listed : Prop} {heeds : Heeds} {keep : List Text} {state after : Depot}
  (proper : contents.Proper formats)
include proper

/-- An image loses a part, and is torn from then on, or is gone. -/
theorem removeExtracted_sheds (stocked : Stocked formats contents listed state.torn state.fs) {name : Text} {rest : Path}
    {value : Unit} (other : name ∉ keep) (root : rest ≠ [] → state.fs (extractedDir ++ [name]) ≠ none)
    (served : tending formats contents heeds (.remove (extractedDir ++ [name] ++ rest)) state (.ok value) after) :
    Sheds formats contents listed keep state after := by
  have stores : Stores (.remove (extractedDir ++ [name] ++ rest)) := .remove name rest extracted_stored
  obtain ⟨untouched, child⟩ := stocked.keeps stores served
  have disk : after.fs = Function.update state.fs (extractedDir ++ [name] ++ rest) none := served.1.1.1.2.2
  have same {path : Path} (apart : ¬ extractedDir ++ [name] <+: path) : after.fs path = state.fs path := by
    rw [disk]
    refine Function.update_of_ne (fun here => apart ?_) _ _
    rw [here]
    exact List.prefix_append _ _
  have torn := served.2.1.trans (tears_remove state.torn name rest value)
  have others {sha : Text} (different : sha ≠ name) : sha ∈ state.torn ↔ sha ∈ after.torn := by
    rw [served.2.1]
    refine (tears_apart fun rest' here => different ?_).symm
    have path : extractedDir ++ [name] ++ rest = extractedDir ++ [sha] ++ rest' := Request.remove.inj here
    exact (entry_unique extracted_stored extracted_stored (List.prefix_append _ _) (path ▸ List.prefix_append _ _)).2
  refine ⟨?_, ?_, ?_, untouched.links, child⟩
  · refine stocked.but proper (stocked.stays_linked stores served) extracted_stored (fun path _ => same)
      (fun sha different => others fun here => different ⟨rfl, here⟩) (fun here => absurd here (by decide))
      (fun here => absurd here (by decide)) fun _ digest => ⟨?_, ?_, ?_⟩
    · intro untorn there
      rw [torn] at untorn
      by_cases top : rest = []
      · rw [disk, top, List.append_nil, Function.update_self] at there
        exact absurd rfl there
      · rw [if_neg top] at untorn
        exact absurd (List.mem_cons_self ..) untorn
    · intro below there
      by_cases here : extractedDir ++ [name] ++ below = extractedDir ++ [name] ++ rest
      · rw [disk, here, Function.update_self] at there
        exact absurd rfl there
      · rw [disk, Function.update_of_ne here] at there ⊢
        exact stocked.parts name digest below there
    · intro member
      rw [torn] at member
      by_cases top : rest = []
      · rw [if_pos top] at member
        exact absurd rfl (of_decide_eq_true (List.mem_filter.mp member).2)
      · rw [disk, Function.update_of_ne (by simpa using Ne.symm top)]
        exact root top
  · intro sha _ there
    rwa [← same fun below =>
      storage_apart extracted_stored images_stored (by decide) ((List.prefix_append _ _).trans below) (List.prefix_append _ _)]
  · intro sha member _
    have different : sha ≠ name := fun here => other (here ▸ member)
    refine ⟨fun there => ?_, (others different).mpr⟩
    rwa [same fun below => different (entry_unique extracted_stored extracted_stored below List.prefix_rfl).2.symm]


/-- What is left to remove of an image. -/
structure Leaves (name : Text) (state : Depot) (left : List Path) (after : Depot) : Prop where
  present : ∀ rest, rest ∈ left ↔ after.fs (extractedDir ++ [name] ++ rest) ≠ none
  ordered : left.Pairwise fun first later => ¬ first <+: later
  root : left = [] ∨ [] ∈ left
  torn : ∀ sha, Digest sha → sha ∈ after.torn → sha ∈ state.torn ∨ sha = name
  gone : left = [] → name ∉ after.torn

private theorem removeEntry_leaves {name : Text} {rest : Path} {left : List Path} {before : Depot} (other : name ∉ keep)
    (stocked : Stocked formats contents listed before.torn before.fs) (leaves : Leaves name state (rest :: left) before) :
    (ask (.remove (extractedDir ++ [name] ++ rest))).Alone (tending formats contents heeds)
      (Sheds formats contents listed keep) (fun _ => False)
      (fun _ after => Sheds formats contents listed keep before after ∧ Leaves name state left after) before := by
  have there : before.fs (extractedDir ++ [name] ++ rest) ≠ none := (leaves.present rest).mp (List.mem_cons_self ..)
  have later : ∀ below ∈ left, ¬ rest <+: below := (List.pairwise_cons.mp leaves.ordered).1
  have removes : before.fs.remove (extractedDir ++ [name] ++ rest)
      (Function.update before.fs (extractedDir ++ [name] ++ rest) none) := by
    refine ⟨there, fun _ => ⟨List.nodup_nil, fun entry => ⟨nofun, fun found => ?_⟩⟩, rfl⟩
    rw [List.append_assoc] at found
    rcases List.mem_cons.mp ((leaves.present _).mpr found) with same | member
    · exact absurd (congrArg List.length same) (by simp)
    · exact absurd (List.prefix_append _ _) (later _ member)
  intro reply after served
  cases reply with
  | error error =>
    have removed : serves (.remove (extractedDir ++ [name] ++ rest)) before.machine (.ok ())
        ⟨_, before.machine.child⟩ := ⟨removes, rfl⟩
    exact absurd removed (served.1.2.2 rfl error rfl () _)
  | ok value =>
    have below : rest ≠ [] → [] ∈ left := fun top =>
      (List.mem_cons.mp (leaves.root.resolve_left nofun)).resolve_left (Ne.symm top)
    have root (top : rest ≠ []) : before.fs (extractedDir ++ [name]) ≠ none := by
      have found := (leaves.present []).mp (List.mem_cons_of_mem _ (below top))
      rwa [List.append_nil] at found
    have sheds := removeExtracted_sheds proper stocked other root served
    have torn := served.2.1.trans (tears_remove before.torn name rest value)
    have disk : after.fs = Function.update before.fs (extractedDir ++ [name] ++ rest) none := served.1.1.1.2.2
    refine ⟨sheds, sheds, ?_, (List.pairwise_cons.mp leaves.ordered).2, ?_, ?_, ?_⟩
    · intro path
      rw [disk]
      by_cases here : path = rest
      · subst here
        rw [Function.update_self]
        exact ⟨fun member => absurd List.prefix_rfl (later _ member), fun absent => absurd rfl absent⟩
      · rw [Function.update_of_ne (by simpa using here), ← leaves.present path, List.mem_cons]
        exact ⟨.inr, fun member => member.resolve_left here⟩
    · by_cases top : rest = []
      · refine .inl (List.eq_nil_iff_forall_not_mem.mpr fun path member => ?_)
        exact later path member (top ▸ List.nil_prefix)
      · exact .inr (below top)
    · intro sha digest member
      rw [torn] at member
      split at member
      · exact leaves.torn sha digest (List.mem_filter.mp member).1
      · rcases List.mem_cons.mp member with same | member
        · exact .inr same
        · exact leaves.torn sha digest member
    · intro nothing member
      have top : rest = [] := by
        by_contra top
        have impossible := below top
        rw [nothing] at impossible
        cases impossible
      rw [torn, if_pos top] at member
      exact absurd rfl (of_decide_eq_true (List.mem_filter.mp member).2)

/-- An image is not torn any more once its removal has come to an end. -/
def Cleared (name : Text) (before after : Depot) : Prop :=
  ∀ sha, Digest sha → sha ∈ after.torn → sha ∈ before.torn ∧ sha ≠ name

private theorem removeDirAll_cleared {name : Text} (other : name ∉ keep)
    (stocked : Stocked formats contents listed state.torn state.fs) :
    (removeDirAll (extractedDir ++ [name])).Alone (tending formats contents heeds) (Sheds formats contents listed keep)
      (fun after => Sheds formats contents listed keep state after ∧ Cleared name state after)
      (fun _ after => Sheds formats contents listed keep state after ∧ Cleared name state after) state := by
  by_cases digest : Digest name
  · have lists : (ask (.tree (extractedDir ++ [name]))).Alone (tending formats contents heeds)
        (Sheds formats contents listed keep)
        (fun after => Sheds formats contents listed keep state after ∧ Cleared name state after)
        (fun below after => after = state ∧ Leaves name state below after) state := by
      intro reply after served
      cases reads_depot rfl served
      refine ⟨.refl stocked, ?_⟩
      cases reply with
      | error error =>
        refine ⟨.refl stocked, fun sha digest' member => ⟨member, fun same => ?_⟩⟩
        subst same
        -- what is there can be listed, since images are finite
        have there := stocked.rooted sha digest member
        obtain ⟨paths, covers⟩ := unpacked_finite formats contents sha
        have finite (rest : Path) (found : state.fs (extractedDir ++ [sha] ++ rest) ≠ none) : rest ∈ paths :=
          covers rest (stocked.parts sha digest rest found ▸ found)
        obtain ⟨below, tree⟩ := Fs.tree_of_finite there paths finite
        exact served.1.2.2 rfl error rfl below state.machine ⟨⟨tree, rfl⟩, rfl⟩
      | ok below =>
        have tree : state.fs.tree (extractedDir ++ [name]) below := served.1.1.1.1
        refine ⟨rfl, tree.2.1, tree.2.2, .inr ?_, fun _ _ member => .inl member, fun nothing => ?_⟩
        · exact (tree.2.1 []).mpr (by simpa using tree.1)
        · have root := (tree.2.1 []).mpr (by simpa using tree.1)
          rw [nothing] at root
          cases root
    apply lists.bind
    intro below after ⟨same, leaves⟩
    rw [same] at leaves ⊢
    let left (rest : List Path) (after : Depot) : Prop :=
      Sheds formats contents listed keep state after ∧ Leaves name state rest after
    have start : left below state := ⟨.refl stocked, leaves⟩
    have removes : (below.forM fun rest => ask (.remove (extractedDir ++ [name] ++ rest))).Alone
        (tending formats contents heeds) (Sheds formats contents listed keep) (fun _ => False) (fun _ after => left [] after)
        state := by
      refine Fallible.Alone.forM left (fun rest others before holds => ?_) start
      apply (removeEntry_leaves proper other holds.1.stocked holds.2).mono
      · exact fun _ impossible => impossible
      · exact fun _ _ ⟨sheds, leaves⟩ => ⟨holds.1.trans sheds, leaves⟩
    refine removes.mono (fun _ => False.elim) fun _ after ⟨sheds, leaves⟩ => ⟨sheds, fun sha digest' member => ?_⟩
    have different : sha ≠ name := fun same => leaves.gone rfl (same ▸ member)
    exact ⟨(leaves.torn sha digest' member).resolve_right different, different⟩
  · refine (aside_alone proper stocked (removeDirAll_aside extracted_stored digest)).mono ?_ ?_
    · exact fun after ⟨sheds, goes⟩ => ⟨sheds, fun sha digest' member =>
        ⟨goes.torn sha digest' member, fun same => digest (same ▸ digest')⟩⟩
    · exact fun _ after ⟨_, sheds, goes⟩ => ⟨sheds, fun sha digest' member =>
        ⟨goes.torn sha digest' member, fun same => digest (same ▸ digest')⟩⟩


/-- Once the extracted images are swept, no torn one is left but among those that are kept. -/
theorem sweepExtracted_tidies (stocked : Stocked formats contents listed state.torn state.fs) :
    Tidies formats contents listed heeds keep
      (fun _ after => (∀ request depot reply, heeds request depot reply → Lists depot.torn request reply) →
        ∀ sha, Digest sha → sha ∈ after.torn → sha ∈ keep)
      (sweep extractedDir keep removeDirAll) state := by
  let left (rest : List Text) (after : Depot) : Prop :=
    (∀ request depot reply, heeds request depot reply → Lists depot.torn request reply) →
      ∀ sha, Digest sha → sha ∈ after.torn → sha ∈ keep ∨ sha ∈ rest
  refine (sweep_tidies extracted_stored left stocked ?_ ?_ ?_ ?_).mono
    fun _ after _ holds lists sha digest torn => (holds lists sha digest torn).resolve_right List.not_mem_nil
  · intro error heeded lists sha digest torn
    exact absurd digest (lists _ _ _ heeded rfl sha torn)
  · intro names named _ sha digest torn
    exact .inr ((named.2 sha).mpr (stocked.rooted sha digest torn))
  · intro name rest before holds among lists sha digest torn
    rcases holds lists sha digest torn with kept | first
    · exact .inl kept
    · rcases List.mem_cons.mp first with rfl | later
      · exact .inl among
      · exact .inr later
  · intro name rest before stocked holds other
    have tried : (removeDirAll (extractedDir ++ [name])).attempt.Alone (tending formats contents heeds)
        (Sheds formats contents listed keep) (Sheds formats contents listed keep before) _ before :=
      Fallible.Alone.attempt (removeDirAll_cleared proper other stocked)
    refine tried.mono (fun _ sheds => sheds) fun result after outcome => ?_
    have cleared : Sheds formats contents listed keep before after ∧ Cleared name before after := by
      cases result with
      | ok value => exact outcome
      | error error => exact outcome
    refine ⟨cleared.1, fun lists sha digest torn => ?_⟩
    obtain ⟨was, different⟩ := cleared.2 sha digest torn
    rcases holds lists sha digest was with among | first
    · exact .inl among
    · exact .inr ((List.mem_cons.mp first).resolve_left different)

/-- A manifest or a blob is removed, a blob only if no image that is there lists it. -/
theorem removeFile_sheds {dir : Path} (flat : dir = blobsDir ∨ dir = imagesDir) {name : Text}
    {reply : Except String Unit} (stocked : Stocked formats contents listed state.torn state.fs)
    (served : tending formats contents heeds (.removeFile (dir ++ [name])) state reply after)
    (unlisted : dir = blobsDir → listed → ∀ sha, Digest sha → state.fs (imagesDir ++ [sha]) ≠ none →
      name ∉ (contents.image sha).layers) : Sheds formats contents listed keep state after ∧ after.torn = state.torn := by
  have stored := mem_storageDirs flat
  have stores : Stores (.removeFile (dir ++ [name])) := .removeFile name stored
  obtain ⟨untouched, child⟩ := stocked.keeps stores served
  cases reply with
  | error error =>
    cases failed_depot served (fun _ _ => nofun) rfl
    exact ⟨.refl stocked, rfl⟩
  | ok value =>
    have disk : after.fs = Function.update state.fs (dir ++ [name]) none := served.1.1.1.2.2.2
    have gone : after.fs (dir ++ [name]) = none := by rw [disk, Function.update_self]
    have same {path : Path} (apart : ¬ dir ++ [name] <+: path) : after.fs path = state.fs path :=
      stocked.elsewhere stores served fun reached => apart (by rw [show path = _ from reached])
    have torn : after.torn = state.torn := served.2.1
    refine ⟨⟨?_, ?_, ?_, untouched.links, child⟩, torn⟩
    · rw [torn]
      refine stocked.but proper (stocked.stays_linked stores served) stored (fun path _ => same) (fun _ _ => Iff.rfl) ?_ ?_ ?_
      · rintro rfl there
        exact absurd gone there
      · rintro rfl _
        exact ⟨gone, unlisted rfl⟩
      · rintro rfl
        exact absurd flat (by decide)
    · intro sha _ there
      by_cases here : dir ++ [name] <+: imagesDir ++ [sha]
      · obtain ⟨rfl, rfl⟩ := entry_unique stored images_stored here List.prefix_rfl
        exact absurd gone there
      · rwa [← same here]
    · intro sha _ _
      have apart : ¬ dir ++ [name] <+: extractedDir ++ [sha] := by
        intro below
        obtain ⟨rfl, _⟩ := entry_unique stored extracted_stored below List.prefix_rfl
        exact absurd flat (by decide)
      exact ⟨fun there => by rwa [same apart], fun member => torn ▸ member⟩

/-- Every blob that an image lists is kept. -/
def Referenced (contents : Contents) (referenced : List Text) (after : Depot) : Prop :=
  ∀ sha, Digest sha → after.fs (imagesDir ++ [sha]) ≠ none → ∀ layer ∈ (contents.image sha).layers, layer ∈ referenced

private theorem sweepBlobs_tidies (stocked : Stocked formats contents listed state.torn state.fs)
    (referenced : List Text)
    (start : listed → Referenced contents referenced state) :
    Tidies formats contents listed heeds keep (fun _ after => after.torn = state.torn)
      (sweep blobsDir referenced fun path => ask (.removeFile path)) state := by
  let held (_ : List Text) (after : Depot) : Prop := after.torn = state.torn ∧ (listed → Referenced contents referenced after)
  refine (sweep_tidies blobs_stored held stocked (fun _ _ => ⟨rfl, start⟩) (fun _ _ => ⟨rfl, start⟩) (fun _ _ _ holds _ => holds) ?_).mono
    fun _ _ _ holds => holds.1
  intro name _ before stocked ⟨torn, holds⟩ unreferenced
  apply Tidies.attempt
  intro reply after served
  have removed : Sheds formats contents listed keep before after ∧ after.torn = before.torn :=
    removeFile_sheds proper (.inl rfl) stocked served fun _ asked sha digest there member =>
      unreferenced (holds asked sha digest there name member)
  obtain ⟨sheds, same⟩ := removed
  exact ⟨sheds, same.trans torn, fun asked sha digest there => holds asked sha digest (sheds.images sha digest there)⟩

section
variable (consults : listed → ∀ request depot reply, heeds request depot reply → Consulted request depot.fs reply)
include consults

/-- Once the images are swept, those that are left are kept. -/
theorem sweepImages_tidies (stocked : Stocked formats contents listed state.torn state.fs) :
    Tidies formats contents listed heeds keep
      (fun _ after => after.torn = state.torn ∧
        (listed → ∀ sha, Digest sha → after.fs (imagesDir ++ [sha]) ≠ none → sha ∈ keep))
      (sweep imagesDir keep fun path => ask (.removeFile path)) state := by
  let left (rest : List Text) (after : Depot) : Prop := after.torn = state.torn ∧
    (listed → ∀ sha, Digest sha → after.fs (imagesDir ++ [sha]) ≠ none → sha ∈ keep ∨ sha ∈ rest)
  refine (sweep_tidies images_stored left stocked ?_ ?_ ?_ ?_).mono fun _ after _ holds =>
    ⟨holds.1, fun asked sha digest there => (holds.2 asked sha digest there).resolve_right List.not_mem_nil⟩
  · refine fun error heeded => ⟨rfl, fun asked sha _ there => ?_⟩
    exact absurd (consults asked _ _ _ heeded rfl sha) there
  · exact fun names named => ⟨rfl, fun _ sha _ there => .inr ((named.2 sha).mpr there)⟩
  · refine fun name rest before holds among => ⟨holds.1, fun asked sha digest there => ?_⟩
    rcases holds.2 asked sha digest there with kept | first
    · exact .inl kept
    · rcases List.mem_cons.mp first with rfl | later
      · exact .inl among
      · exact .inr later
  · intro name rest before stocked ⟨torn, holds⟩ _
    apply Tidies.attempt
    intro reply after served
    have removed : Sheds formats contents listed keep before after ∧ after.torn = before.torn :=
      removeFile_sheds proper (.inr rfl) stocked served fun impossible => absurd impossible (by decide)
    obtain ⟨sheds, same⟩ := removed
    refine ⟨sheds, same.trans torn, fun asked sha digest there => ?_⟩
    rcases holds asked sha digest (sheds.images sha digest there) with kept | first
    · exact .inl kept
    · rcases List.mem_cons.mp first with rfl | later
      · refine absurd ?_ there
        cases reply with
        | ok value =>
          rw [show after.fs = _ from served.1.1.1.2.2.2]
          exact Function.update_self ..
        | error error =>
          -- it fails only where there is no manifest to remove
          by_contra present
          cases failed_depot served (fun _ _ => nofun) rfl
          have file := stocked.images sha digest present
          have removes : serves (.removeFile (imagesDir ++ [sha])) before.machine (.ok ())
              { before.machine with fs := Function.update before.fs (imagesDir ++ [sha]) none } :=
            ⟨⟨by simp [file], present, by simp [file], rfl⟩, rfl⟩
          exact served.1.2.2 rfl error rfl () _ removes
      · exact .inr later

/-- The blobs of an image that is there are found in its manifest. -/
theorem referencedBlobs_tidies (stocked : Stocked formats contents listed state.torn state.fs) (sha : Text) :
    Tidies formats contents listed heeds keep (fun blobs after => listed → Digest sha →
      after.fs (imagesDir ++ [sha]) ≠ none → ∀ layer ∈ (contents.image sha).layers, layer ∈ blobs)
      (referencedBlobs formats sha) state := by
  have reads : Tidies formats contents listed heeds keep (fun result after => listed → Digest sha →
      after.fs (imagesDir ++ [sha]) ≠ none → result = .ok (formats.toJson (contents.image sha)))
      (ask (.readToString (imagesDir ++ [sha]))).attempt state := by
    apply Tidies.attempt
    intro reply after served
    have heeded := served.2.2
    cases reads_depot rfl served
    refine ⟨.refl stocked, fun asked digest there => ?_⟩
    cases reply with
    | error error => exact absurd (consults asked _ _ _ heeded (List.prefix_append _ _)) there
    | ok json =>
      exact congrArg _ (readToString_stored stocked.linked (.inr rfl) served.1.1.1.1 (stocked.images sha digest))
  apply reads.bind
  intro result after sheds holds
  cases result with
  | error error =>
    refine .pure sheds.stocked fun asked digest there => ?_
    cases holds asked digest there
  | ok json =>
    dsimp only
    cases parsed : formats.readImage json with
    | error error =>
      refine .pure sheds.stocked fun asked digest there => ?_
      cases holds asked digest there
      rw [proper.reads sha] at parsed
      cases parsed
    | ok manifest =>
      refine .pure sheds.stocked fun asked digest there layer member => ?_
      cases holds asked digest there
      rw [proper.reads sha] at parsed
      cases parsed
      exact List.mem_cons_of_mem _ member

/-- What is kept stays, and nothing else is torn if the extracted images could be listed. -/
theorem cleanupStorage_tidies (stocked : Stocked formats contents listed state.torn state.fs) :
    Tidies formats contents listed heeds keep
      (fun _ after => (∀ request depot reply, heeds request depot reply → Lists depot.torn request reply) →
        ∀ sha, Digest sha → sha ∈ after.torn → sha ∈ keep)
      (cleanupStorage formats keep) state := by
  have leftovers : Tidies formats contents listed heeds keep (fun _ _ => True)
      ([blobsDir, imagesDir, extractedDir].forM fun dir => do
        if ← existsOk dir then
          let _ ← (cleanTmpInDir dir).attempt) state := by
    refine Tidies.aside proper stocked (Fallible.Uses.forM ?_)
    intro dir stored
    have looks : (existsOk dir).Uses (Aside fun _ => False) fun _ => True := by
      apply (ask_uses (.reads rfl)).attempt.bind
      intro result _
      cases result <;> exact .pure trivial
    apply looks.bind
    intro found _
    cases found with
    | true =>
      apply (cleanTmpInDir_aside stored).attempt.bind
      intro _ _
      exact .pure trivial
    | false => exact .pure trivial
  apply leftovers.bind
  intro _ state sheds _
  have references : Tidies formats contents listed heeds keep (fun blobs after => ∀ sha ∈ keep, ∃ found ∈ blobs, listed →
      Digest sha → after.fs (imagesDir ++ [sha]) ≠ none → ∀ layer ∈ (contents.image sha).layers, layer ∈ found)
      (keep.mapM (referencedBlobs formats)) state := by
    refine Fallible.Along.mapM (sheds_course formats contents listed keep) _ ?_ ?_ (.refl sheds.stocked)
    · intro sha found before after went holds asked digest there
      exact holds asked digest (went.images sha digest there)
    · exact fun sha before here => referencedBlobs_tidies proper consults here.stocked sha
  apply references.bind
  intro blobs read sheds known
  apply (sweepExtracted_tidies proper sheds.stocked).bind
  intro _ middle sheds' cleared
  apply (sweepImages_tidies proper consults sheds'.stocked).bind
  intro _ swept sheds'' ⟨torn, kept⟩
  refine (sweepBlobs_tidies proper sheds''.stocked blobs.flatten fun asked sha digest there layer member => ?_).mono ?_
  · obtain ⟨found, among, every⟩ := known sha (kept asked sha digest there)
    refine List.mem_flatten.mpr ⟨found, among, every asked digest ?_ layer member⟩
    exact sheds'.images sha digest (sheds''.images sha digest there)
  · intro _ after _ same lists sha digest member
    rw [same, torn] at member
    exact cleared lists sha digest member

end
end
end Pos2.Loader
