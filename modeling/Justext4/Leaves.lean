import Justext4.Counts
import Justext4.Entries

/-!
Leaves that come and go. An inode that is taken and written, but not named yet,
becomes a leaf of the tree when a directory lists it; an inode whose bits are
given back is a leaf no longer when its directory does not list it. The other
nodes keep what they hold.
-/
namespace Justext4.Leaves
open Justext4 Justext4.Fallible Justext4.Filesystem Justext4.Volumes Bytes
open Justext4.GroupDescriptor (GroupDescriptor)
open Justext4.Inode (Inode)
open Justext4.DirBlock
open Justext4.Nodes
open Justext4.NamedTree
open Justext4.Backing
open Justext4.Reading
open Justext4.Counts

/-- A directory gets other entries and the link count that goes with them, and
    nothing else changes. -/
structure Relisted (g : Geometry) (v v' : Volume) (p : UInt32) (block : Nat) (parent : UInt32) (kids : List Kid) :
    Prop where
  slot : ∃ links, v'.slot p = { v.slot p with links_count := links } ∧ links.toNat = 2 + subdirs kids
  slots : ∀ m, m ≠ p → v'.slot m = v.slot m
  size : (v'.block block).size = g.block_size
  lists : Lists (v'.block block) (listing p parent kids)
  blocks : ∀ b, b ≠ block → v'.block b = v.block b
  inodeBit : v'.inodeBit = v.inodeBit
  blockBit : v'.blockBit = v.blockBit

/-- A file or a link holds the same in both volumes. -/
def SameData (v v' : Volume) (m : UInt32) : Node → Prop
  | .dir .. => True
  | .file start count => v'.slot m = v.slot m ∧ ∀ b, start ≤ b → b < start + count → v'.block b = v.block b
  | .link => v'.slot m = v.slot m

section
variable {g : Geometry} {v v' : Volume} {N : NodeMap} {n p : UInt32} {x : Node} {block : Nat}
  {parent parent' : UInt32} {kids kids' : List Kid} {name : List UInt8} {block_buf : Bytes}

theorem SameData.trans {v'' : Volume} {m : UInt32} {y : Node} (first : SameData v v' m y)
    (second : SameData v' v'' m y) : SameData v v'' m y := by
  cases y with
  | dir => trivial
  | file => exact ⟨second.1.trans first.1, fun b low high => (second.2 b low high).trans (first.2 b low high)⟩
  | link => exact Eq.trans second first
theorem SameData.of_eq {m : UInt32} {y : Node} (slot : v'.slot m = v.slot m)
    (blocks : ∀ b, y.Owns b → v'.block b = v.block b) : SameData v v' m y := by
  cases y with
  | dir => trivial
  | file => exact ⟨slot, fun b low high => blocks b ⟨low, high⟩⟩
  | link => exact slot
theorem SameData.spared (spared : Spared g v v' N) {m : UInt32} {y : Node} (found : N m = some y) :
    SameData v v' m y := .of_eq (spared.slot m (live_of found)) fun b owns => spared.block m y b found owns
/-- What a file and a link hold depends on the slot and on the blocks. -/
theorem SameData.bytes {m : UInt32} {start count : Nat} (same : SameData v v' m (.file start count)) :
    fileBytes v' m start count = fileBytes v m start count := by
  rw [fileBytes, fileBytes, same.1]
  congr 2
  apply List.map_congr_left
  intro i member
  obtain ⟨-, high⟩ := List.mem_range'_1.mp member
  exact same.2 _ (by omega) (by omega)
theorem SameData.target {m : UInt32} (same : SameData v v' m .link) : linkBytes v' m = linkBytes v m := by
  rw [linkBytes, linkBytes, show v'.slot m = v.slot m from same]

/-! ### A directory with other entries -/

theorem Relisted.sound (relisted : Relisted g v v' p block parent' kids')
    (sound : Sound g v p (.dir block parent kids)) : Sound g v' p (.dir block parent' kids') := by
  obtain ⟨links, slot, count⟩ := relisted.slot
  have backed : DirBacked g v p block parent kids := sound.backed
  refine { sound with taken := ?_, backed := ?_, owned := ?_ }
  · rw [relisted.inodeBit]
    exact sound.taken
  · obtain ⟨mode, flags, size, run, -, dtime, -, -⟩ := backed
    exact ⟨by rw [slot]; exact mode, by rw [slot]; exact flags, by rw [slot]; exact size, by rw [slot]; exact run,
      by rw [slot]; exact count, by rw [slot]; exact dtime, relisted.size, relisted.lists⟩
  · rw [relisted.blockBit]
    exact sound.owned
theorem Relisted.other (relisted : Relisted g v v' p block parent' kids') {m : UInt32} {y : Node}
    (sound : Sound g v m y) (distinct : m ≠ p) (apart : ¬ y.Owns block) : Sound g v' m y := by
  refine sound.congr (relisted.slots m distinct) (fun b owns => ⟨relisted.blocks b ?_, ?_⟩) ?_
  · rintro rfl
    exact apart owns
  · rw [relisted.blockBit]
    exact (sound.owned b owns).2.2
  · rw [relisted.inodeBit]
    exact sound.taken
theorem Relisted.data (relisted : Relisted g v v' p block parent' kids') (laid : Laid g v N)
    (found : N p = some (.dir block parent kids)) {m : UInt32} {y : Node} (there : N m = some y) :
    SameData v v' m y := by
  by_cases same : m = p
  · subst same
    rw [found] at there
    cases there
    trivial
  · refine .of_eq (relisted.slots m same) fun b owns => relisted.blocks b ?_
    rintro rfl
    exact laid.apart there found same b owns rfl
theorem Relisted.clear (relisted : Relisted g v v' p block parent' kids') (laid : Laid g v N)
    (taken : v.inodeBit (p.toNat - 1) = true) {m : UInt32} (low : 1 ≤ m.toNat) (high : m.toNat ≤ g.per_group)
    (inside : m.toNat ≤ 8 * g.block_size) (unset : v'.inodeBit (m.toNat - 1) = false) :
    (v'.slot m).links_count = 0 := by
  rw [relisted.inodeBit] at unset
  have other : m ≠ p := by
    rintro rfl
    rw [taken] at unset
    cases unset
  rw [relisted.slots m other]
  exact laid.clear m low high inside unset
/-- A directory may be listed anew, wherever its entries lead. -/
theorem laid_relisted (laid : Laid g v N) (found : N p = some (.dir block parent kids)) {f : Node → Node}
    (shape : f (.dir block parent kids) = .dir block parent' kids')
    (relisted : Relisted g v v' p block parent' kids') : Laid g v' (modify N p f) := by
  have owner : ∀ {m y}, modify N p f m = some y → ∃ z, N m = some z ∧ ∀ b, y.Owns b → z.Owns b := by
    intro m y there
    rcases modify_some there with ⟨-, old⟩ | ⟨rfl, z, old, rfl⟩
    · exact ⟨y, old, fun b owns => owns⟩
    · rw [found] at old
      cases old
      exact ⟨_, found, fun b owns => by rwa [shape] at owns⟩
  refine ⟨?_, ?_, ?_, ?_, ?_⟩
  · intro m y there
    rcases modify_some there with ⟨other, old⟩ | ⟨rfl, z, old, rfl⟩
    · exact relisted.other (laid.sound old) other fun owns => laid.apart old found other block owns rfl
    · rw [found] at old
      cases old
      rw [shape]
      exact relisted.sound (laid.sound found)
  · intro m k y z there there' distinct b owns owns'
    obtain ⟨y', old, wider⟩ := owner there
    obtain ⟨z', old', wider'⟩ := owner there'
    exact laid.apart old old' distinct b (wider b owns) (wider' b owns')
  · rw [relisted.inodeBit]
    exact laid.reserved
  · rw [relisted.blockBit]
    exact laid.metadata
  · intro m low high inside unset
    exact relisted.clear laid (laid.sound found).taken low high inside unset

theorem relisted_links (v : Volume) (p : UInt32) (block : Nat) (links : UInt16) (size : block_buf.size = g.block_size)
    (lists : Lists block_buf (listing p parent kids')) (count : links.toNat = 2 + subdirs kids') :
    Relisted g v ((v.setBlock block block_buf).setSlot p { v.slot p with links_count := links }) p block parent kids' := by
  have here : ((v.setBlock block block_buf).setSlot p { v.slot p with links_count := links }).block block = block_buf :=
    if_pos rfl
  exact ⟨⟨links, if_pos rfl, count⟩, fun m other => if_neg other, by rw [here]; exact size,
    by rw [here]; exact lists, fun b other => if_neg other,
    rfl, rfl⟩
theorem relisted_plain (kids' : List Kid) (sound : Sound g v p (.dir block parent kids)) (size : block_buf.size = g.block_size)
    (lists : Lists block_buf (listing p parent' kids')) (same : subdirs kids' = subdirs kids) :
    Relisted g v (v.setBlock block block_buf) p block parent' kids' := by
  have backed : DirBacked g v p block parent kids := sound.backed
  have here : (v.setBlock block block_buf).block block = block_buf := if_pos rfl
  exact ⟨⟨(v.slot p).links_count, rfl, by rw [backed.links, same]⟩, fun m other => rfl, by rw [here]; exact size,
    by rw [here]; exact lists,
    fun b other => if_neg other, rfl, rfl⟩
theorem Relisted.onGroup0 (relisted : Relisted g v v' p block parent kids') (f : GroupDescriptor → GroupDescriptor) :
    Relisted g v (v'.onGroup0 f) p block parent kids' :=
  ⟨relisted.slot, relisted.slots, relisted.size, relisted.lists, relisted.blocks, relisted.inodeBit, relisted.blockBit⟩

theorem listing_append (n parent : UInt32) (kids : List Kid) (k : Kid) :
    listing n parent kids ++ [k] = listing n parent (kids ++ [k]) := rfl
theorem subdirs_append (kids : List Kid) (k : Kid) :
    subdirs (kids ++ [k]) = subdirs kids + if k.code = 2 then 1 else 0 := by
  rw [subdirs, List.countP_append, subdirs]
  by_cases dir : k.code = 2 <;> simp [dir]
theorem subdirs_filter {before after : List Kid} {k : Kid} (nodup : ((before ++ k :: after).map (·.name)).Nodup) :
    subdirs ((before ++ k :: after).filter (·.name != k.name)) + (if k.code = 2 then 1 else 0) =
      subdirs (before ++ k :: after) := by
  rw [filter_split nodup, subdirs, subdirs, List.countP_append, List.countP_append, List.countP_cons]
  by_cases dir : k.code = 2
  · simp [dir]
    omega
  · simp [dir]

/-! ### A new leaf -/

/-- An inode that nothing names is taken, and holds a node with its blocks. -/
structure Ready (g : Geometry) (v : Volume) (N : NodeMap) (n : UInt32) (x : Node) : Prop where
  dead : N n = none
  sound : Sound g v n x
  unowned : ∀ {m y}, N m = some y → ∀ b, y.Owns b → ¬ x.Owns b

/-- The nodes of a tree with a new leaf. -/
theorem withLeaf_cases (found : N p = some (.dir block parent kids)) {m : UInt32} {y : Node}
    (there : withLeaf N p name n x m = some y) :
    (m = n ∧ y = x) ∨ (m = p ∧ y = .dir block parent (kids ++ [⟨name, n, x.code⟩])) ∨
      (m ≠ p ∧ N m = some y) := by
  rw [withLeaf, Nodes.insert] at there
  split at there
  · rename_i same
    cases there
    exact .inl ⟨same, rfl⟩
  · rcases modify_some there with ⟨other, old⟩ | ⟨rfl, z, old, shape⟩
    · exact .inr (.inr ⟨other, old⟩)
    · rw [found] at old
      cases old
      exact .inr (.inl ⟨rfl, shape⟩)

theorem consistent_withLeaf (consistent : Consistent g v N) (ready : Ready g v N n x)
    (found : N p = some (.dir block parent kids)) (free : named kids name = none) (proper : Proper name)
    (leaf : x.Leaf) (back : ∀ q ∈ x.parent, q = p)
    (relisted : Relisted g v v' p block parent (kids ++ [⟨name, n, x.code⟩])) :
    Consistent g v' (withLeaf N p name n x) := by
  have owner : ∀ {m y}, withLeaf N p name n x m = some y → (m = n ∧ y = x) ∨
      ∃ z, N m = some z ∧ ∀ b, y.Owns b → z.Owns b := by
    intro m y there
    rcases withLeaf_cases found there with new | ⟨rfl, rfl⟩ | ⟨-, old⟩
    · exact .inl new
    · exact .inr ⟨_, found, fun b owns => owns⟩
    · exact .inr ⟨y, old, fun b owns => owns⟩
  refine ⟨⟨?_, ?_, ?_, ?_, ?_⟩, linked_withLeaf consistent.linked found free proper ready.dead leaf back⟩
  · intro m y there
    rcases withLeaf_cases found there with ⟨rfl, rfl⟩ | ⟨rfl, rfl⟩ | ⟨other, old⟩
    · have distinct : m ≠ p := by
        rintro rfl
        rw [ready.dead] at found
        cases found
      exact relisted.other ready.sound distinct (ready.unowned found block rfl)
    · exact relisted.sound (consistent.sound found)
    · exact relisted.other (consistent.sound old) other fun owns => consistent.apart old found other block owns rfl
  · intro m k y z there there' distinct b owns owns'
    rcases owner there with ⟨rfl, rfl⟩ | ⟨y', old, wider⟩
    · rcases owner there' with ⟨rfl, rfl⟩ | ⟨z', old', wider'⟩
      · exact distinct rfl
      · exact ready.unowned old' b (wider' b owns') owns
    · rcases owner there' with ⟨rfl, rfl⟩ | ⟨z', old', wider'⟩
      · exact ready.unowned old b (wider b owns) owns'
      · exact consistent.apart old old' distinct b (wider b owns) (wider' b owns')
  · rw [relisted.inodeBit]
    exact consistent.reserved
  · rw [relisted.blockBit]
    exact consistent.metadata
  · intro m low high inside unset
    exact relisted.clear consistent.toLaid (consistent.sound found).taken low high inside unset

theorem withLeaf_live {m : UInt32} : Live (withLeaf N p name n x) m ↔ Live N m ∨ m = n := by
  by_cases same : m = n
  · simp [same, Live, withLeaf, Nodes.insert]
  · have split : withLeaf N p name n x m = addKid N p ⟨name, n, x.code⟩ m := if_neg same
    rw [Live, split, ← Live, addKid, live_modify]
    simp [same]
theorem tight_withLeaf (tight : Tight g v N) (dead : N n = none)
    (inodes : ∀ i < g.per_group, v'.inodeBit i = true → v.inodeBit i = true ∨ UInt32.ofNat (i + 1) = n)
    (blocks : ∀ b, v'.blockBit b = true → v.blockBit b = true ∨ x.Owns b) :
    Tight g v' (withLeaf N p name n x) := by
  refine ⟨fun i small set => ?_, fun b small set => ?_⟩
  · rw [withLeaf_live]
    rcases inodes i small set with old | new
    · rcases tight.inodes i small old with reserved | live
      · exact .inl reserved
      · exact .inr (.inl live)
    · exact .inr (.inr new)
  · rcases blocks b set with old | new
    · rcases tight.blocks b small old with metadata | ⟨m, y, there, owns⟩
      · exact .inl metadata
      · have other : m ≠ n := by
          rintro rfl
          rw [dead] at there
          cases there
        refine .inr ?_
        by_cases same : m = p
        · subst same
          refine ⟨m, y.onKids (· ++ [⟨name, n, x.code⟩]), ?_, by simpa using owns⟩
          rw [withLeaf, Nodes.insert, if_neg other]
          exact modify_at there
        · refine ⟨m, y, ?_, owns⟩
          rw [withLeaf, Nodes.insert, if_neg other, addKid, modify_other _ same, there]
    · exact .inr ⟨n, x, if_pos rfl, new⟩

theorem kind_modify (f : List Kid → List Kid) (m : UInt32) :
    (modify N p (.onKids f) m).map (·.code) = (N m).map (·.code) := by
  rw [Nodes.modify]
  split
  · cases N m <;> simp
  · rfl
theorem dirs_withLeaf (listed : n.toNat ≤ g.inodes) (dead : N n = none) :
    dirs g (withLeaf N p name n x) = dirs g N + if x.code = 2 then 1 else 0 := by
  have here : withLeaf N p name n x n = some x := if_pos rfl
  have elsewhere : ∀ m, m ≠ n → (withLeaf N p name n x m).map (·.code) = (N m).map (·.code) := by
    intro m other
    rw [withLeaf, Nodes.insert, if_neg other, addKid, kind_modify]
  by_cases dir : x.code = 2
  · rw [if_pos dir]
    exact dirs_raise _ _ listed (by rw [dead]; rfl) (by rw [here]; simp [dir]) elsewhere
  · rw [if_neg dir, Nat.add_zero, dirs, dirs]
    apply List.countP_congr
    intro i _
    by_cases same : UInt32.ofNat i = n
    · simp [same, here, dead, dir]
    · have kind := elsewhere _ same
      cases first : withLeaf N p name n x (.ofNat i) <;> cases second : N (.ofNat i) <;>
        rw [first, second] at kind <;> simp_all

/-! ### A leaf that goes -/

/-- The nodes of a tree that has lost a leaf. -/
theorem withoutLeaf_cases (found : N p = some (.dir block parent kids)) {m : UInt32} {y : Node}
    (there : withoutLeaf N p name n m = some y) :
    m ≠ n ∧ ((m = p ∧ y = .dir block parent (kids.filter (·.name != name))) ∨ (m ≠ p ∧ N m = some y)) := by
  rw [withoutLeaf, erase] at there
  split at there
  · cases there
  · rename_i different
    refine ⟨different, ?_⟩
    rcases modify_some there with ⟨other, old⟩ | ⟨rfl, z, old, shape⟩
    · exact .inr ⟨other, old⟩
    · rw [found] at old
      cases old
      exact .inl ⟨rfl, shape⟩

/-- The bits of a node are given back and its slot says so; nothing else changes. -/
structure Released (v v' : Volume) (n : UInt32) (x : Node) : Prop where
  slot : (v'.slot n).links_count = 0
  slots : ∀ m, m ≠ n → v'.slot m = v.slot m
  block : v'.block = v.block
  inodeBit : ∀ i, v'.inodeBit i = (v.inodeBit i && !decide (i = n.toNat - 1))
  blockBit : ∀ b, v'.blockBit b = true ↔ v.blockBit b = true ∧ ¬ x.Owns b

theorem Released.other (released : Released v v' n x) (consistent : Consistent g v N) (here : N n = some x)
    {m : UInt32} {y : Node} (there : N m = some y) (distinct : m ≠ n) : Sound g v' m y := by
  have sound := consistent.sound there
  refine sound.congr (released.slots m distinct) (fun b owns => ⟨by rw [released.block], ?_⟩) ?_
  · rw [released.blockBit]
    exact ⟨(sound.owned b owns).2.2, consistent.apart there here distinct b owns⟩
  · have low := sound.low
    have low' := (consistent.sound here).low
    have different : m.toNat ≠ n.toNat := fun same => distinct (UInt32.toNat_inj.mp same)
    rw [released.inodeBit, sound.taken, decide_eq_false (by omega)]
    rfl

theorem consistent_withoutLeaf {v'' : Volume} (consistent : Consistent g v N)
    (found : N p = some (.dir block parent kids)) (edge : child N p name = some n) (here : N n = some x) (leaf : x.Leaf)
    (released : Released v v' n x) (relisted : Relisted g v' v'' p block parent (kids.filter (·.name != name))) :
    Consistent g v'' (withoutLeaf N p name n) := by
  have other := child_ne consistent.linked edge
  have sound := consistent.sound here
  have number : 11 ≤ n.toNat := by
    rcases sound.number with root | large
    · exact absurd (root ▸ edge) (consistent.linked.tree.top p name)
    · exact large
  have owner : ∀ {m y}, withoutLeaf N p name n m = some y → ∃ z, N m = some z ∧ ∀ b, y.Owns b → z.Owns b := by
    intro m y there
    obtain ⟨-, ⟨rfl, rfl⟩ | ⟨-, old⟩⟩ := withoutLeaf_cases found there
    · exact ⟨_, found, fun b owns => owns⟩
    · exact ⟨y, old, fun b owns => owns⟩
  refine ⟨⟨?_, ?_, ?_, ?_, ?_⟩, linked_withoutLeaf consistent.linked found edge here leaf⟩
  · intro m y there
    obtain ⟨distinct, ⟨rfl, rfl⟩ | ⟨apart, old⟩⟩ := withoutLeaf_cases found there
    · exact relisted.sound (released.other consistent here found distinct)
    · exact relisted.other (released.other consistent here old distinct) apart fun owns =>
        consistent.apart old found apart block owns rfl
  · intro m k y z there there' distinct b owns owns'
    obtain ⟨y', old, wider⟩ := owner there
    obtain ⟨z', old', wider'⟩ := owner there'
    exact consistent.apart old old' distinct b (wider b owns) (wider' b owns')
  · intro i small
    rw [relisted.inodeBit, released.inodeBit, consistent.reserved i small, decide_eq_false (by omega)]
    rfl
  · intro b low
    rw [relisted.blockBit, released.blockBit]
    refine ⟨consistent.metadata b low, fun owns => ?_⟩
    have high := (sound.owned b owns).1
    omega
  · intro m low high inside unset
    have taken := (consistent.sound found).taken
    by_cases gone : m = n
    · subst gone
      rw [relisted.slots m other]
      exact released.slot
    · have kept : v'.inodeBit (p.toNat - 1) = true := (released.other consistent here found other.symm).taken
      rw [relisted.inodeBit] at unset
      have distinct : m ≠ p := by
        rintro rfl
        rw [kept] at unset
        cases unset
      rw [relisted.slots m distinct, released.slots m gone]
      apply consistent.clear m low high inside
      have different : m.toNat ≠ n.toNat := fun same => gone (UInt32.toNat_inj.mp same)
      rwa [released.inodeBit, decide_eq_false (by omega), Bool.not_false, Bool.and_true] at unset

theorem withoutLeaf_live {m : UInt32} : Live (withoutLeaf N p name n) m ↔ Live N m ∧ m ≠ n := by
  by_cases same : m = n
  · simp [same, Live, withoutLeaf, erase]
  · have split : withoutLeaf N p name n m = dropKid N p name m := if_neg same
    rw [Live, split, ← Live, dropKid, live_modify]
    simp [same]
theorem tight_withoutLeaf {v'' : Volume} (tight : Tight g v N) (here : N n = some x) (low : 1 ≤ n.toNat)
    (released : Released v v' n x) (inodeBit : v''.inodeBit = v'.inodeBit) (blockBit : v''.blockBit = v'.blockBit) :
    Tight g v'' (withoutLeaf N p name n) := by
  refine ⟨fun i small set => ?_, fun b small set => ?_⟩
  · rw [inodeBit, released.inodeBit, Bool.and_eq_true, Bool.not_eq_true', decide_eq_false_iff_not] at set
    rcases tight.inodes i small set.1 with reserved | live
    · exact .inl reserved
    · refine .inr (withoutLeaf_live.mpr ⟨live, fun same => set.2 ?_⟩)
      have number := congrArg UInt32.toNat same
      rw [word32 (by have word := per_group_word g; omega)] at number
      omega
  · rw [blockBit, released.blockBit] at set
    rcases tight.blocks b small set.1 with metadata | ⟨m, y, there, owns⟩
    · exact .inl metadata
    · have other : m ≠ n := by
        rintro rfl
        rw [here] at there
        cases there
        exact set.2 owns
      refine .inr ?_
      by_cases same : m = p
      · subst same
        refine ⟨m, y.onKids (·.filter (·.name != name)), ?_, by simpa using owns⟩
        rw [withoutLeaf, erase, if_neg other]
        exact modify_at there
      · refine ⟨m, y, ?_, owns⟩
        rw [withoutLeaf, erase, if_neg other, dropKid, modify_other _ same, there]
theorem dirs_withoutLeaf (p : UInt32) (name : List UInt8) (listed : n.toNat ≤ g.inodes) (here : N n = some x) :
    dirs g N = dirs g (withoutLeaf N p name n) + if x.code = 2 then 1 else 0 := by
  have gone : withoutLeaf N p name n n = none := if_pos rfl
  have elsewhere : ∀ m, m ≠ n → (N m).map (·.code) = (withoutLeaf N p name n m).map (·.code) := by
    intro m other
    rw [withoutLeaf, erase, if_neg other, dropKid, kind_modify]
  by_cases dir : x.code = 2
  · rw [if_pos dir]
    exact dirs_raise _ _ listed (by rw [gone]; rfl) (by rw [here]; simp [dir]) elsewhere
  · rw [if_neg dir, Nat.add_zero, dirs, dirs]
    apply List.countP_congr
    intro i _
    by_cases same : UInt32.ofNat i = n
    · simp [same, here, gone, dir]
    · have kind := elsewhere _ same
      cases first : N (.ofNat i) <;> cases second : withoutLeaf N p name n (.ofNat i) <;>
        rw [first, second] at kind <;> simp_all
theorem Released.data (released : Released v v' n x) {m : UInt32} {y : Node} (distinct : m ≠ n) :
    SameData v v' m y := .of_eq (released.slots m distinct) fun b _ => by rw [released.block]
end

end Justext4.Leaves
