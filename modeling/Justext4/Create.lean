import Justext4.Leaves

/-!
Creating files, directories and links. Each of the three calls first looks
where the new name goes, then takes an inode and blocks and writes them, and
last adds the entry. A call that fails after it has taken an inode leaves the
tree as it was and the bits set; a call that returns has added one leaf.
-/
namespace Justext4.Create
open Justext4 Justext4.Fallible Justext4.Filesystem Justext4.Volumes Bytes
open Justext4.GroupDescriptor (GroupDescriptor)
open Justext4.Inode (Inode INODE_FLAG_EXTENTS I_BLOCK_LEN)
open Justext4.DirEntry (DirEntry encode_range)
open Justext4.DirBlock
open Justext4.Nodes
open Justext4.Paths
open Justext4.Backing
open Justext4.Reading
open Justext4.Entries
open Justext4.Counts
open Justext4.Leaves
open Justext4.Allocation
open Justext4.Runs (runBlock run runs)

/-! ### Taking inodes and blocks -/

/-- An inode that can be handed out. -/
structure Fresh (g : Geometry) (v : Volume) (N : NodeMap) (n : UInt32) : Prop where
  dead : N n = none
  number : 11 ≤ n.toNat
  inside : n.toNat ≤ g.per_group
  covered : n.toNat ≤ 8 * g.block_size
  clear : v.inodeBit (n.toNat - 1) = false
  first : ∀ j < n.toNat - 1, v.inodeBit j = true

/-- Bits have been taken that no node has, and no node has changed. -/
structure Wasted (g : Geometry) (v v' : Volume) (N : NodeMap) : Prop where
  spared : Spared g v v' N
  taken : ∃ i < 8 * g.block_size, v.inodeBit i = false ∧ v'.inodeBit i = true
  counted : ∀ used, Counted g v used → Counted g v' used

section
variable {g : Geometry} {v v' : Volume} {N : NodeMap} {fs : Filesystem} {n : UInt32}

theorem allocate_fresh (holds : Holds g v fs) (consistent : Consistent g v N) :
    (AllUsed g v ∧ NoInode fs ∧ allocate_inode.run fs = .err (.NoSpace "inodes") fs) ∨
    ∃ n fs', Fresh g v N n ∧ allocate_inode.run fs = .ok n fs' ∧ Holds g (v.takeInode (n.toNat - 1)) fs' := by
  rcases allocate_inode_spec holds with refused | ⟨i, fs', inside, clear, first, ran, holds'⟩
  case inl => exact .inl refused
  have word := per_group_word g
  have number : (UInt32.ofNat (i + 1)).toNat = i + 1 := word32 (by omega)
  have large : 10 ≤ i := by
    apply Nat.le_of_not_lt
    intro small
    rw [consistent.reserved i small] at clear
    cases clear
  have dead : N (.ofNat (i + 1)) = none := by
    cases found : N (.ofNat (i + 1)) with
    | none => rfl
    | some x =>
      have taken := (consistent.sound found).taken
      rw [number, Nat.add_sub_cancel, clear] at taken
      cases taken
  refine .inr ⟨_, fs', ⟨dead, by omega, by omega, by omega, ?_, ?_⟩, ran, ?_⟩
  · rw [number, Nat.add_sub_cancel]
    exact clear
  · rw [number, Nat.add_sub_cancel]
    exact first
  · rw [number, Nat.add_sub_cancel]
    exact holds'

theorem Wasted.inode (fresh : Fresh g v N n) : Wasted g v (v.takeInode (n.toNat - 1)) N := by
  obtain ⟨-, number, inside, covered, clear, -⟩ := fresh
  exact ⟨spared_takeInode _, ⟨n.toNat - 1, by omega, clear, by simp [Volume.takeInode]⟩,
    fun _ counted => counted.takeInode (by omega) clear⟩
theorem Wasted.blocks (wasted : Wasted g v v' N) {start count : Nat} (inside : start + count ≤ g.limit)
    (clear : ∀ j, start ≤ j → j < start + count → v'.blockBit j = false) :
    Wasted g v (v'.takeBlocks start count) N := by
  have total := g.limit_total
  exact ⟨wasted.spared.trans (spared_takeBlocks start count), wasted.taken,
    fun used counted => (wasted.counted used counted).takeBlocks (by omega) clear⟩
theorem Wasted.slot (wasted : Wasted g v v' N) (dead : N n = none) (taken : v'.inodeBit (n.toNat - 1) = true)
    (inode : Inode) : Wasted g v (v'.setSlot n inode) N :=
  ⟨wasted.spared.trans (spared_setSlot inode dead taken), wasted.taken,
    fun used counted => (wasted.counted used counted).setSlot n inode⟩
theorem Wasted.data (wasted : Wasted g v v' N) {start count : Nat} (bytes : Bytes)
    (unowned : ∀ m y b, N m = some y → y.Owns b → ¬ (start ≤ b ∧ b < start + count)) :
    Wasted g v (v'.setBlocks g.block_size start count bytes) N :=
  ⟨wasted.spared.trans (spared_setBlocks bytes unowned), wasted.taken,
    fun used counted => (wasted.counted used counted).setBlocks g.block_size start count bytes⟩

/-- A wasteful call has changed the image. -/
theorem Wasted.differs (wasted : Wasted g v v' N) (holds : Holds g v fs) {fs' : Filesystem} (holds' : Holds g v' fs') :
    fs' ≠ fs := by
  rintro rfl
  obtain ⟨i, inside, clear, set⟩ := wasted.taken
  rw [← holds.inode_bits i inside] at clear
  rw [← holds'.inode_bits i inside, clear] at set
  cases set

theorem takeBlocks_none (v : Volume) : v.takeBlocks 0 0 = v := by
  have group : on_group0 (on_free_blocks (· - 0)) v.gdt = v.gdt := by
    cases v.gdt with
    | nil => rfl
    | cons gd rest => simp [on_group0, on_free_blocks]
  have record : on_all_free_blocks (· - 0) v.superblock = v.superblock := by simp [on_all_free_blocks]
  have bits : (fun j => v.blockBit j || decide (0 ≤ j ∧ j < 0 + 0)) = v.blockBit := by
    funext j
    rw [decide_eq_false (by omega), Bool.or_false]
  rw [Volume.takeBlocks, bits, group, record]
theorem setBlocks_none (v : Volume) (d start : Nat) (bytes : Bytes) : v.setBlocks d start 0 bytes = v := by
  have blocks : (fun q => if start ≤ q ∧ q < start + 0 then bytes.slice ((q - start) * d) d else v.block q) =
      v.block := by
    funext q
    rw [if_neg (by omega)]
  rw [Volume.setBlocks, blocks]

/-- A run of blocks that is handed out is past the metadata and not a node's. -/
theorem allocate_run (holds : Holds g v fs) (consistent : Consistent g v N) (count : Nat) :
    (NoRun g v count ∧ ∃ e, (allocate_blocks_contiguous count).run fs = .err e fs) ∨
    ((allocate_blocks_contiguous count).run fs = .panic ∧ 8 * g.block_size < g.total) ∨
    ∃ start fs', (0 < count → g.root ≤ start) ∧ start + count ≤ g.limit ∧
      (∀ j, start ≤ j → j < start + count → v.blockBit j = false) ∧
      (allocate_blocks_contiguous count).run fs = .ok start fs' ∧ Holds g (v.takeBlocks start count) fs' := by
  by_cases none : count = 0
  · subst none
    refine .inr (.inr ⟨0, fs, by omega, by omega, by omega, allocate_none fs, ?_⟩)
    rw [takeBlocks_none]
    exact holds
  rcases allocate_blocks_spec holds count (by omega) with ⟨refused, none⟩ | panicked |
    ⟨start, fs', inside, clear, ran, holds'⟩
  · exact .inl ⟨none, _, refused⟩
  · exact .inr (.inl panicked)
  · have total := g.blocks_high
    refine .inr (.inr ⟨start, fs', fun _ => ?_, by rw [Geometry.limit]; omega, clear, ran, holds'⟩)
    apply Nat.le_of_not_lt
    intro low
    have set := consistent.metadata start low
    rw [clear start (Nat.le_refl _) (by omega)] at set
    cases set

theorem Fresh.few (fresh : Fresh g v N n) (out : ¬ n.toNat ≤ g.inodes) : g.inodes < g.per_group := by
  have inside := fresh.inside
  omega
theorem unowned_clear (consistent : Consistent g v N) {start count : Nat}
    (clear : ∀ j, start ≤ j → j < start + count → v.blockBit j = false) :
    ∀ m y b, N m = some y → y.Owns b → ¬ (start ≤ b ∧ b < start + count) := by
  intro m y b found owns inside
  have set := ((consistent.sound found).owned b owns).2.2
  rw [clear b inside.1 inside.2] at set
  cases set

theorem write_inode_out (holds : Holds g v fs) (out : g.inodes < n.toNat) (inode : Inode) :
    ∃ e, (write_inode n inode).run fs = .err e fs := by
  have refused : ¬ (n ≠ 0 ∧ n ≤ fs.superblock.inodes_count) := by
    rw [inode_in_range holds.static']
    omega
  refine ⟨.InodeOutOfRange n fs.superblock.inodes_count, ?_⟩
  simp only [write_inode, run_bind, run_reads, ensure_not refused, ofRes_err, andThen_err]
theorem large_of_listed (number : 11 ≤ n.toNat) (listed : n.toNat ≤ g.inodes) : 2048 ≤ g.block_size := by
  have small := g.small
  rcases g.known with size | size | size | size
  · have few := small size
    omega
  all_goals omega
end

/-! ### Where a new name goes -/

/-- Find the directory of a new name, and go on when the name is free. -/
def under {α : Type} (path : List UInt8) (next : UInt32 → Inode → List UInt8 → Call α) : Call α := do
  let (parent_path, name) ← lift (split_path path)
  let (parent_inode_num, parent_inode) ← reads fun fs => open_directory fs parent_path
  reads fun fs => ensure_absent fs parent_inode name
  next parent_inode_num parent_inode name

/-- The checks before an inode is taken refuse the path, or there is no inode to take. -/
def Refused (fs : Filesystem) (path : List UInt8) : Prop :=
  ∀ parent_path name num inode, split_path path = .ok (parent_path, name) →
    open_directory fs parent_path = .ok (num, inode) → ensure_absent fs inode name = .ok () →
    NoInode fs

/-- The path names a free place in a directory. -/
structure Place (g : Geometry) (v : Volume) (N : NodeMap) (path parent_path name : List UInt8) (p : UInt32)
    (block : Nat) (parent : UInt32) (kids : List Kid) : Prop where
  split : split_path path = .ok (parent_path, name)
  directory : Directory N parent_path p block parent kids
  free : named (listing p parent kids) name = none

section
variable {g : Geometry} {v : Volume} {N : NodeMap} {fs : Filesystem} {path parent_path name : List UInt8} {p : UInt32}
  {block : Nat} {parent : UInt32} {kids : List Kid}

theorem Place.proper (place : Place g v N path parent_path name p block parent kids) : Proper name := by
  obtain ⟨full, plain⟩ := (split_path_ok place.split).1
  have free := place.free
  refine ⟨full, plain, ?_, ?_⟩
  · rintro rfl
    rw [named_dot] at free
    cases free
  · rintro rfl
    rw [named_dotdot] at free
    cases free
theorem Place.unnamed (place : Place g v N path parent_path name p block parent kids) : named kids name = none := by
  have proper := place.proper
  rw [← named_listing (n := p) parent proper.2.2.1 proper.2.2.2]
  exact place.free

theorem under_ends {α : Type} (path : List UInt8) (holds : Holds g v fs) (consistent : Consistent g v N)
    (next : UInt32 → Inode → List UInt8 → Call α) :
    (Refused fs path ∧ ∃ e, (under path next).run fs = .err e fs) ∨
    ∃ parent_path name p block parent kids, Place g v N path parent_path name p block parent kids ∧
      (under path next).run fs = (next p (v.slot p) name).run fs := by
  rcases split_path_ends path with ⟨parent_path, name, split⟩ | ⟨e, split⟩
  case inr =>
    refine .inl ⟨fun _ _ _ _ other => ?_, e, ?_⟩
    · rw [split] at other
      cases other
    · simp only [under, run_bind, run_lift, split, ofRes_err, andThen_err]
  rcases open_directory_ends holds consistent parent_path with ⟨e, refused⟩ | ⟨p, block, parent, kids, directory, opened⟩
  case inl =>
    refine .inl ⟨fun _ _ _ _ other there => ?_, e, ?_⟩
    · rw [split] at other
      cases other
      rw [refused] at there
      cases there
    · simp only [under, run_bind, run_lift, split, ofRes_ok, andThen_ok, run_reads, refused, ofRes_err, andThen_err]
  have absent := ensure_absent_ok holds consistent directory.found name
  by_cases free : named (listing p parent kids) name = none
  case neg =>
    rw [if_neg free] at absent
    refine .inl ⟨fun _ _ _ _ other there gone => ?_, .AlreadyExists name, ?_⟩
    · rw [split] at other
      cases other
      rw [opened] at there
      cases there
      rw [absent] at gone
      cases gone
    · simp only [under, run_bind, run_lift, split, ofRes_ok, andThen_ok, run_reads, opened, absent, ofRes_err,
        andThen_err]
  case pos =>
    rw [if_pos free] at absent
    refine .inr ⟨parent_path, name, p, block, parent, kids, ⟨split, directory, free⟩, ?_⟩
    simp only [under, run_bind, run_lift, split, ofRes_ok, andThen_ok, run_reads, opened, absent]
end

/-! ### The three calls -/

/-- The inode of a new file. -/
def file_inode (size block_size num_blocks : Nat) (block : FixedBytes 60) : Inode where
  mode := 0o100644
  uid := 0
  gid := 0
  size := .ofNat size
  atime := 0
  ctime := 0
  mtime := 0
  dtime := 0
  links_count := 1
  blocks_lo := .ofNat (num_blocks * block_size / 512)
  blocks_hi := 0
  flags := INODE_FLAG_EXTENTS
  block
  generation := 0
  file_acl_lo := 0
  file_acl_hi := 0

/-- The tree has a new leaf, and nothing else has changed. -/
structure Grown (g : Geometry) (v v' : Volume) (N N' : NodeMap) (path : List UInt8) (n : UInt32) (x : Node) : Prop where
  place : ∃ parent_path name p block parent kids, Place g v N path parent_path name p block parent kids ∧
    N' = withLeaf N p name n x ∧ (∀ q ∈ x.parent, q = p) ∧ Entered (v.block block) (v'.block block) name
  dead : N n = none
  leaf : x.Leaf
  consistent : Consistent g v' N'
  counted : Counted g v (dirs g N) → Counted g v' (dirs g N')
  tight : Tight g v N → Tight g v' N'
  kept : ∀ {m y}, N m = some y → SameData v v' m y
  number : 11 ≤ n.toNat
  first : ∀ i < n.toNat - 1, v.inodeBit i = true
  inodeBit : ∀ i, v'.inodeBit i = (v.inodeBit i || decide (i = n.toNat - 1))

/-- What a creation lacks that has taken an inode and fails. -/
inductive Shortage (g : Geometry) (v : Volume) (N : NodeMap) (path : List UInt8) (count : Nat) : Prop
  | inodes (few : g.inodes < g.per_group)
  | blocks (none : NoRun g v count)
  | extent (long : 32768 < count)
  | room {parent_path name : List UInt8} {p : UInt32} {block : Nat} {parent : UInt32} {kids : List Kid}
      (place : Place g v N path parent_path name p block parent kids) (full : has_room (v.block block) name = false)

/-- How a call that creates an inode ends. -/
inductive Creation (g : Geometry) (v : Volume) (N : NodeMap) (fs : Filesystem) (path : List UInt8) (refusal : Prop)
    (count : Nat) (new : Volume → UInt32 → Node → Prop) : Ended Filesystem Ext4Error UInt32 → Prop
  | refused {e : Ext4Error} (why : refusal) : Creation g v N fs path refusal count new (.err e fs)
  | panicked (immodest : ¬ Modest g v) : Creation g v N fs path refusal count new .panic
  | wasted {e : Ext4Error} {fs' : Filesystem} {v' : Volume} (holds : Holds g v' fs') (wasted : Wasted g v v' N)
      (lacks : Shortage g v N path count) :
      Creation g v N fs path refusal count new (.err e fs')
  | made {n : UInt32} {fs' : Filesystem} {v' : Volume} {N' : NodeMap} {x : Node} (holds : Holds g v' fs')
      (written : WrittenOut g fs') (grown : Grown g v v' N N' path n x) (held : new v' n x) :
      Creation g v N fs path refusal count new (.ok n fs')

/-- The inode and the run of blocks that are handed out first. -/
def Placed (fs : Filesystem) (count : Nat) (n : UInt32) (start : Nat) : Prop :=
  ∃ fs₁ fs₂, allocate_inode.run fs = .ok n fs₁ ∧ (allocate_blocks_contiguous count).run fs₁ = .ok start fs₂
/-- The node has the inode and no blocks but those that are handed out first. -/
def Takes (fs : Filesystem) (count : Nat) (n : UInt32) (x : Node) : Prop :=
  ∃ start, Placed fs count n start ∧ ∀ b, x.Owns b → start ≤ b ∧ b < start + count

/-- An inode and its blocks are taken and written, and wait for an entry. -/
structure Prepared (g : Geometry) (v v' : Volume) (N : NodeMap) (n : UInt32) (x : Node) : Prop where
  wasted : Wasted g v v' N
  ready : Ready g v' N n x
  inodes : ∀ i, v'.inodeBit i = (v.inodeBit i || decide (i = n.toNat - 1))
  blocks : ∀ b, v'.blockBit b = true → v.blockBit b = true ∨ x.Owns b

section
variable {g : Geometry} {v v' v'' : Volume} {N : NodeMap} {fs fs' : Filesystem} {path parent_path name : List UInt8}
  {p n : UInt32} {x : Node} {block : Nat} {parent : UInt32} {kids : List Kid} {refusal : Prop}
  {new : Volume → UInt32 → Node → Prop}

theorem Creation.mono {new' : Volume → UInt32 → Node → Prop} {r : Ended Filesystem Ext4Error UInt32}
    (ended : Creation g v N fs path refusal count new r) (weaker : ∀ v' n x, new v' n x → new' v' n x) :
    Creation g v N fs path refusal count new' r := by
  cases ended with
  | refused why => exact .refused why
  | panicked immodest => exact .panicked immodest
  | wasted holds wasted lacks => exact .wasted holds wasted lacks
  | made holds written grown held => exact .made holds written grown (weaker _ _ _ held)

/-- The leaf is in the tree when its directory lists it. -/
theorem Prepared.grown (prepared : Prepared g v v' N n x) (consistent : Consistent g v N)
    (place : Place g v N path parent_path name p block parent kids) (leaf : x.Leaf) (back : ∀ q ∈ x.parent, q = p)
    (relisted : Relisted g v' v'' p block parent (kids ++ [⟨name, n, x.code⟩])) (fresh : Fresh g v N n)
    (entered : Entered (v'.block block) (v''.block block) name)
    (counted : ∀ used, Counted g v' used → Counted g v'' (used + if x.code = 2 then 1 else 0)) :
    Grown g v v'' N (withLeaf N p name n x) path n x where
  place := ⟨parent_path, name, p, block, parent, kids, place, rfl, back, by
    rw [← prepared.wasted.spared.block p _ block place.directory.found rfl]
    exact entered⟩
  dead := prepared.ready.dead
  leaf := leaf
  consistent := consistent_withLeaf (consistent.spared prepared.wasted.spared) prepared.ready place.directory.found
    place.unnamed place.proper leaf back relisted
  counted old := by
    rw [dirs_withLeaf prepared.ready.sound.listed prepared.ready.dead]
    exact counted _ (prepared.wasted.counted _ old)
  tight old := tight_withLeaf old prepared.ready.dead
    (fun i small set => by
      have number := fresh.number
      have word := per_group_word g
      rw [relisted.inodeBit, prepared.inodes, Bool.or_eq_true, decide_eq_true_eq] at set
      refine set.imp_right fun same => UInt32.toNat_inj.mp ?_
      rw [word32 (by omega)]
      omega)
    (fun b set => prepared.blocks b (relisted.blockBit ▸ set))
  kept there := (SameData.spared prepared.wasted.spared there).trans
    (relisted.data (consistent.toLaid.spared prepared.wasted.spared) place.directory.found there)
  number := fresh.number
  first := fresh.first
  inodeBit i := by rw [relisted.inodeBit, prepared.inodes]

theorem Prepared.large (prepared : Prepared g v v' N n x) (number : 11 ≤ n.toNat) : 2048 ≤ g.block_size :=
  large_of_listed number prepared.ready.sound.listed

/-- The inode of the directory is the one that was read before. -/
theorem Prepared.oneBlock (prepared : Prepared g v v' N n x) (consistent : Consistent g v N)
    (found : N p = some (.dir block parent kids)) :
    OneBlock g (v.slot p) block ∧ Sound g v' p (.dir block parent kids) ∧ v'.slot p = v.slot p :=
  ⟨Entries.oneBlock (consistent.sound found), (consistent.spared prepared.wasted.spared).sound found,
    prepared.wasted.spared.slot p (live_of found)⟩

/-- The end of the calls that create a file or a link. -/
theorem enter_leaf (consistent : Consistent g v N) (holds : Holds g v' fs') (prepared : Prepared g v v' N n x)
    (fresh : Fresh g v N n) (place : Place g v N path parent_path name p block parent kids) (other : x.code ≠ 2)
    (is_new : ∀ block_buf, new (v'.setBlock block block_buf) n x) :
    Creation g v N fs path refusal count new
      ((do add_dir_entry (v.slot p) name n x.code; flush_metadata; pure n : Call UInt32).run fs') := by
  have found := place.directory.found
  obtain ⟨one, sound, -⟩ := prepared.oneBlock consistent found
  have leaf : x.Leaf := by
    cases x with
    | dir => exact absurd rfl other
    | file => trivial
    | link => trivial
  have back : ∀ q ∈ x.parent, q = p := by
    intro q member
    cases x with
    | dir => exact absurd rfl other
    | file => cases member
    | link => cases member
  have lists : Lists (v'.block block) (listing p parent kids) := DirBacked.lists sound.backed
  cases room : has_room (v'.block block) name with
  | false =>
    obtain ⟨e, refused⟩ := add_dir_entry_full holds one lists room n x.code
    simp only [run_bind, refused, andThen_err]
    rw [prepared.wasted.spared.block p _ block found rfl] at room
    exact .wasted holds prepared.wasted (.room place room)
  | true =>
    obtain ⟨block_buf, fs₁, added, holds₁, size, lists₁, entered⟩ := add_dir_entry_ok holds one lists room n x.code
    obtain ⟨fs₂, flushed, holds₂, written⟩ := flush_metadata_ok holds₁ (prepared.large fresh.number)
    have here : (v'.setBlock block block_buf).block block = block_buf := if_pos rfl
    rw [← here] at entered
    simp only [run_bind, added, flushed, andThen_ok, run_pure]
    have relisted := relisted_plain (kids ++ [⟨name, n, x.code⟩]) sound size (listing_append p parent kids _ ▸ lists₁)
      (by rw [subdirs_append, if_neg other, Nat.add_zero])
    refine .made holds₂ written (prepared.grown consistent place leaf back relisted fresh entered fun used counted => ?_)
      (is_new block_buf)
    rw [if_neg other, Nat.add_zero]
    exact counted.setBlock block block_buf

/-! ### Files -/

/-- The blocks of a new file. -/
def file_blocks (data : Bytes) (num_blocks block_size : Nat) : Bytes := (zeros (num_blocks * block_size)).patch 0 data

/-- `create_file` from the name on. -/
def create_file_at (data : Bytes) (parent_inode : Inode) (filename : List UInt8) : Call UInt32 := do
  let block_size ← reads fun fs => .ok fs.superblock.block_size.toNat
  let num_blocks := div_ceil data.size block_size
  let new_inode_num ← allocate_inode
  let physical_start ← allocate_blocks_contiguous (num_blocks % 4294967296)
  let block ← lift (i_block (runs physical_start num_blocks))
  write_inode new_inode_num (file_inode data.size block_size num_blocks block)
  if 0 < num_blocks then do
    let buf ← lift ((zeros (num_blocks * block_size)).copy 0 data)
    let offset ← lift (in_u64 (physical_start * block_size))
    write_at offset buf
  else pure ()
  add_dir_entry parent_inode filename new_inode_num 1
  flush_metadata
  pure new_inode_num

theorem create_file_eq (path : List UInt8) (data : Bytes) :
    create_file path data = under path fun _ parent_inode filename => create_file_at data parent_inode filename := rfl

/-- The number of blocks that a file can have: the casts that `create_file`
    makes of it lose nothing. -/
def Storable (block_size num_blocks : Nat) : Prop :=
  num_blocks < 65536 ∨ (block_size < 65536 ∧ num_blocks < 4294967296)

theorem slice_append (b : Bytes) (i n m : Nat) : b.slice i n ++ b.slice (i + n) m = b.slice i (n + m) := by
  apply ext_inside (by simp)
  intro k inside
  have short : k < n + m := by simpa using inside
  rw [byte_append, size_slice, byte_slice_of_lt _ short]
  split
  · rename_i first
    rw [byte_slice_of_lt _ first]
  · rw [byte_slice_of_lt _ (by omega)]
    congr 1
    omega
theorem joined_slices (b : Bytes) (d start count : Nat) :
    joined ((List.range' start count).map fun i => b.slice (i * d) d) = b.slice (start * d) (count * d) := by
  induction count generalizing start with
  | zero =>
    apply ext_inside (by simp [joined])
    intro i inside
    simp [joined] at inside
  | succ count ih =>
    rw [List.range'_succ, List.map_cons, joined, ih, show (start + 1) * d = start * d + d by rw [Nat.succ_mul],
      slice_append, Nat.succ_mul, Nat.add_comm]
theorem size_file_blocks {data : Bytes} {num_blocks block_size : Nat} (fits : data.size ≤ num_blocks * block_size) :
    (file_blocks data num_blocks block_size).size = num_blocks * block_size := size_patch _ _ _ (by simpa using fits)
theorem file_blocks_eq {data : Bytes} {num_blocks block_size : Nat} (fits : data.size ≤ num_blocks * block_size) :
    file_blocks data num_blocks block_size = data.slice 0 (num_blocks * block_size) := by
  apply ext_inside (size_file_blocks fits)
  intro i inside
  rw [size_file_blocks fits] at inside
  rw [byte_slice_of_lt _ inside, file_blocks, byte_patch, Nat.zero_add, Nat.zero_add, Nat.sub_zero]
  split
  · rfl
  · rw [byte_zeros, data.beyond i (by omega)]

theorem slice_file_blocks {data : Bytes} {count d i : Nat} (fits : data.size ≤ count * d) (inside : i < count) :
    (file_blocks data count d).slice (i * d) d = data.slice (i * d) d := by
  have before : i * d + d ≤ count * d := by
    rw [← Nat.succ_mul]
    exact Nat.mul_le_mul_right d inside
  apply ext_inside (by rw [size_slice, size_slice])
  intro k short
  rw [size_slice] at short
  rw [byte_slice_of_lt _ short, byte_slice_of_lt _ short, file_blocks_eq fits, byte_slice_of_lt _ (by omega), Nat.zero_add]

/-- What a file holds whose blocks are cut from a buffer. -/
theorem fileBytes_slices {start count d : Nat} {data : Bytes} (fits : (v.slot n).size.toNat ≤ count * d)
    (blocks : ∀ i < count, v.block (start + i) = data.slice (i * d) d) :
    fileBytes v n start count = data.slice 0 (v.slot n).size.toNat := by
  have same : (List.range' 0 count).map (fun i => v.block (start + i)) =
      (List.range' 0 count).map fun i => data.slice (i * d) d := by
    apply List.map_congr_left
    intro i member
    exact blocks i (by have inside := List.mem_range'_1.mp member; omega)
  rw [fileBytes, same, joined_slices, Nat.zero_mul, Bytes.truncate, size_slice, Nat.min_eq_left fits]
  apply ext_inside (by rw [size_slice, size_slice])
  intro i inside
  rw [size_slice] at inside
  rw [byte_slice_of_lt _ inside, byte_slice_of_lt _ (by omega), byte_slice_of_lt _ inside, Nat.zero_add]

/-- A file that is written but not named. -/
theorem prepared_file (consistent : Consistent g v N) (fresh : Fresh g v N n) (listed : n.toNat ≤ g.inodes)
    {start : Nat} {data : Bytes} (low : 0 < div_ceil data.size g.block_size → g.root ≤ start)
    (high : start + div_ceil data.size g.block_size ≤ g.limit) (short : div_ceil data.size g.block_size ≤ 32768)
    (clear : ∀ j, start ≤ j → j < start + div_ceil data.size g.block_size → v.blockBit j = false) :
    Prepared g v
      ((((v.takeInode (n.toNat - 1)).takeBlocks start (div_ceil data.size g.block_size)).setSlot n
        (file_inode data.size g.block_size (div_ceil data.size g.block_size)
          (runBlock start (div_ceil data.size g.block_size)))).setBlocks g.block_size start
            (div_ceil data.size g.block_size) (file_blocks data (div_ceil data.size g.block_size) g.block_size))
      N n (.file start (div_ceil data.size g.block_size)) := by
  have unowned := unowned_clear consistent clear
  have number := fresh.number
  have word := per_group_word g
  have inside := fresh.inside
  have bounded := g.total_small
  have total := g.limit_total
  have positive := g.positive
  have blocks := g.total_high
  have reach : div_ceil data.size g.block_size * g.block_size ≤ g.total * g.block_size :=
    Nat.mul_le_mul_right _ (by omega)
  have fits := le_div_ceil (n := data.size) (d := g.block_size) (by omega)
  refine ⟨((Wasted.inode fresh).blocks high clear).slot fresh.dead ?_ _ |>.data _ unowned, ⟨fresh.dead, ?_, ?_⟩, ?_, ?_⟩
  · simp [Volume.takeBlocks, Volume.takeInode]
  · refine ⟨.inr fresh.number, listed, fresh.covered, ?_, ?_, fun b owns => ⟨Nat.le_trans (low ?_) owns.1, ?_, ?_⟩⟩
    · simp [Volume.setBlocks, Volume.setSlot, Volume.takeBlocks, Volume.takeInode]
    · have slot : ∀ bytes, ((((v.takeInode (n.toNat - 1)).takeBlocks start (div_ceil data.size g.block_size)).setSlot n
          (file_inode data.size g.block_size (div_ceil data.size g.block_size)
            (runBlock start (div_ceil data.size g.block_size)))).setBlocks g.block_size start
              (div_ceil data.size g.block_size) bytes).slot n =
          file_inode data.size g.block_size (div_ceil data.size g.block_size)
            (runBlock start (div_ceil data.size g.block_size)) := fun _ => if_pos rfl
      have size : (UInt64.ofNat data.size).toNat = data.size := by
        rw [UInt64.toNat_ofNat']
        omega
      refine ⟨?_, ?_, ?_, ?_, short, by omega, ?_, ?_⟩
      · rw [slot]
        show (0o100644 : UInt16) &&& Inode.S_IFMT = Inode.S_IFREG
        decide
      · rw [slot]; rfl
      · rw [slot]
        show div_ceil (UInt64.ofNat data.size).toNat g.block_size = _
        rw [size]
      · rw [slot]; rfl
      · rw [slot]; rfl
      · rw [slot]; rfl
    · have lt := owns.2
      have le := owns.1
      omega
    · exact Nat.lt_of_lt_of_le owns.2 high
    · simp only [Volume.setBlocks, Volume.setSlot, Volume.takeBlocks]
      rw [decide_eq_true ⟨owns.1, owns.2⟩, Bool.or_true]
  · intro m y found b owns owns'
    exact unowned m y b found owns owns'
  · intro i
    rfl
  · intro b set
    simp only [Volume.setBlocks, Volume.setSlot, Volume.takeBlocks, Volume.takeInode, Bool.or_eq_true,
      decide_eq_true_eq] at set
    exact set

/-- A file whose blocks hold its data and zeros behind it. -/
def Filled (g : Geometry) (data : Bytes) (v : Volume) (n : UInt32) (x : Node) : Prop :=
  ∃ start count, x = .file start count ∧ fileBytes v n start count = data ∧ (v.slot n).size.toNat = data.size ∧
    ∀ i < count, v.block (start + i) = data.slice (i * g.block_size) g.block_size

/-- The record of a file is that of a new one, with some tree of extents. -/
def Recorded (g : Geometry) (data : Bytes) (v : Volume) (n : UInt32) : Prop :=
  ∃ block, v.slot n = file_inode data.size g.block_size (div_ceil data.size g.block_size) block

theorem create_file_at_records (holds : Holds g v fs) (consistent : Consistent g v N) {data : Bytes}
    (storable : Storable g.block_size (div_ceil data.size g.block_size))
    (place : Place g v N path parent_path name p block parent kids)
    (why : NoInode fs → refusal) :
    Creation g v N fs path refusal (div_ceil data.size g.block_size)
      (fun v' n x => (Filled g data v' n x ∧ Takes fs (div_ceil data.size g.block_size) n x) ∧ Recorded g data v' n)
      ((create_file_at data (v.slot p) name).run fs) := by
  have size := holds.static'.block_size
  rcases allocate_fresh holds consistent with ⟨-, none, full⟩ | ⟨n, fs₁, fresh, taken, holds₁⟩
  case inl =>
    simp only [create_file_at, run_bind, run_reads, ofRes_ok, andThen_ok, full, andThen_err]
    exact .refused (why none)
  have wasted₁ := Wasted.inode fresh
  have consistent₁ := consistent.spared wasted₁.spared
  have whole : div_ceil data.size g.block_size % 4294967296 = div_ceil data.size g.block_size := by
    rcases storable with small | ⟨-, small⟩ <;> omega
  rcases allocate_run holds₁ consistent₁ (div_ceil data.size g.block_size % 4294967296) with
    ⟨none, e, full⟩ | ⟨panicked, past⟩ | ⟨start, fs₂, low, high, clear, ran, holds₂⟩
  · simp only [create_file_at, run_bind, run_reads, ofRes_ok, andThen_ok, taken, size, full, andThen_err]
    exact .wasted holds₁ wasted₁ (.blocks (whole ▸ none))
  · simp only [create_file_at, run_bind, run_reads, ofRes_ok, andThen_ok, taken, size, panicked, andThen_panic]
    exact .panicked fun modest => absurd modest.blocks_fit (Nat.not_le_of_lt past)
  rw [whole] at low high clear holds₂ ran
  have bitmap := g.limit_bitmap
  have total := g.limit_total
  have wasted₂ := wasted₁.blocks high clear
  by_cases short : div_ceil data.size g.block_size ≤ 32768
  case neg =>
    -- Only blocks of 65536 bytes leave room for a run this long.
    have small : div_ceil data.size g.block_size < 65536 := by
      rcases storable with small | ⟨narrow, -⟩
      · exact small
      · rcases g.known with known | known | known | known <;> omega
    obtain ⟨e, refused⟩ := Runs.i_block_long start (Nat.lt_of_not_le short) small
    simp only [create_file_at, run_bind, run_reads, ofRes_ok, andThen_ok, taken, size, whole, ran, run_lift, refused,
      ofRes_err, andThen_err]
    exact .wasted holds₂ wasted₂ (.extent (Nat.lt_of_not_le short))
  case pos =>
  by_cases listed : n.toNat ≤ g.inodes
  case neg =>
    obtain ⟨e, refused⟩ := write_inode_out holds₂ (Nat.lt_of_not_le listed)
      (file_inode data.size g.block_size (div_ceil data.size g.block_size)
        (runBlock start (div_ceil data.size g.block_size)))
    simp only [create_file_at, run_bind, run_reads, ofRes_ok, andThen_ok, taken, size, whole, ran, run_lift,
      Runs.i_block_runs _ _ short, refused, andThen_err]
    exact .wasted holds₂ wasted₂ (.inodes (fresh.few listed))
  case pos =>
  have number := fresh.number
  have positive := g.positive
  have fits := le_div_ceil (n := data.size) (d := g.block_size) (by omega)
  obtain ⟨fs₃, written, holds₃⟩ := write_inode_ok holds₂ (n := n) (by omega) listed
    (file_inode data.size g.block_size (div_ceil data.size g.block_size) (runBlock start (div_ceil data.size g.block_size)))
  have prepared := prepared_file consistent fresh listed low high short clear
  have copied : (zeros (div_ceil data.size g.block_size * g.block_size)).copy 0 data =
      (.ok (file_blocks data (div_ceil data.size g.block_size) g.block_size) : Res Ext4Error Bytes) :=
    copy_ok (by simpa using fits)
  have bounded := g.total_small
  have reach : div_ceil data.size g.block_size * g.block_size ≤ g.total * g.block_size :=
    Nat.mul_le_mul_right _ (by omega)
  -- The blocks are written when there are any.
  obtain ⟨fs₄, holds₄, rest⟩ : ∃ fs₄,
      Holds g ((((v.takeInode (n.toNat - 1)).takeBlocks start (div_ceil data.size g.block_size)).setSlot n
        (file_inode data.size g.block_size (div_ceil data.size g.block_size)
          (runBlock start (div_ceil data.size g.block_size)))).setBlocks g.block_size start
            (div_ceil data.size g.block_size) (file_blocks data (div_ceil data.size g.block_size) g.block_size)) fs₄ ∧
      (create_file_at data (v.slot p) name).run fs =
        (do add_dir_entry (v.slot p) name n 1; flush_metadata; pure n : Call UInt32).run fs₄ := by
    by_cases some : 0 < div_ceil data.size g.block_size
    · obtain ⟨fs₄, filled, holds₄⟩ := write_blocks_ok holds₃ (size_file_blocks fits) (low some) (Nat.le_trans high total)
      have inside := g.block_inside (p := start) (by omega)
      refine ⟨fs₄, holds₄, ?_⟩
      simp only [create_file_at, run_bind, run_reads, ofRes_ok, andThen_ok, taken, size, whole, ran, run_lift,
        Runs.i_block_runs _ _ short, written, some, ↓reduceIte, copied, in_u64_ok (show start * g.block_size < _ by omega),
        filled]
    · refine ⟨fs₃, ?_, ?_⟩
      · have none : div_ceil data.size g.block_size = 0 := by omega
        rw [none, setBlocks_none, ← none]
        exact holds₃
      · simp only [create_file_at, run_bind, run_reads, ofRes_ok, andThen_ok, taken, size, whole, ran, run_lift,
          Runs.i_block_runs _ _ short, written, some, ↓reduceIte]
  rw [rest]
  refine enter_leaf (x := .file start (div_ceil data.size g.block_size)) consistent holds₄ prepared fresh place
    (show (1 : UInt8) ≠ 2 by decide) fun block_buf => ?_
  have apart := prepared.ready.unowned place.directory.found block rfl
  have blocks : ∀ i < div_ceil data.size g.block_size,
      (((((v.takeInode (n.toNat - 1)).takeBlocks start (div_ceil data.size g.block_size)).setSlot n
        (file_inode data.size g.block_size (div_ceil data.size g.block_size)
          (runBlock start (div_ceil data.size g.block_size)))).setBlocks g.block_size start
            (div_ceil data.size g.block_size) (file_blocks data (div_ceil data.size g.block_size) g.block_size)).setBlock
            block block_buf).block (start + i) =
        (file_blocks data (div_ceil data.size g.block_size) g.block_size).slice (i * g.block_size) g.block_size := by
    intro i inside
    have other : start + i ≠ block := fun same => apart ⟨by omega, by omega⟩
    simp only [Volume.setBlock, Volume.setBlocks, other, ↓reduceIte]
    rw [if_pos ⟨by omega, by omega⟩, Nat.add_sub_cancel_left]
  have number : (UInt64.ofNat data.size).toNat = data.size := by
    rw [UInt64.toNat_ofNat']
    omega
  have slot : (((((v.takeInode (n.toNat - 1)).takeBlocks start (div_ceil data.size g.block_size)).setSlot n
        (file_inode data.size g.block_size (div_ceil data.size g.block_size)
          (runBlock start (div_ceil data.size g.block_size)))).setBlocks g.block_size start
            (div_ceil data.size g.block_size) (file_blocks data (div_ceil data.size g.block_size) g.block_size)).setBlock
            block block_buf |>.slot n).size.toNat = data.size :=
    (congrArg (fun inode => (Inode.size inode).toNat) (if_pos rfl)).trans number
  refine ⟨⟨⟨start, _, rfl, ?_, slot, fun i inside => (blocks i inside).trans (slice_file_blocks fits inside)⟩,
    start, ⟨fs₁, fs₂, taken, ran⟩, fun b owns => owns⟩, _, if_pos rfl⟩
  rw [fileBytes_slices (by omega) fun i inside => (blocks i inside).trans (slice_file_blocks fits inside), slot, slice_self]
theorem create_file_at_takes (holds : Holds g v fs) (consistent : Consistent g v N) {data : Bytes}
    (storable : Storable g.block_size (div_ceil data.size g.block_size))
    (place : Place g v N path parent_path name p block parent kids)
    (why : NoInode fs → refusal) :
    Creation g v N fs path refusal (div_ceil data.size g.block_size)
      (fun v' n x => Filled g data v' n x ∧ Takes fs (div_ceil data.size g.block_size) n x)
      ((create_file_at data (v.slot p) name).run fs) :=
  (create_file_at_records holds consistent storable place why).mono fun _ _ _ held => held.1

theorem create_file_records (holds : Holds g v fs) (consistent : Consistent g v N) (path : List UInt8) {data : Bytes}
    (storable : Storable g.block_size (div_ceil data.size g.block_size)) :
    Creation g v N fs path (Refused fs path) (div_ceil data.size g.block_size)
      (fun v' n x => Filled g data v' n x ∧ Recorded g data v' n)
      ((create_file path data).run fs) := by
  rw [create_file_eq]
  rcases under_ends path holds consistent (fun _ parent_inode filename => create_file_at data parent_inode filename)
    with ⟨why, e, refused⟩ | ⟨parent_path, name, p, block, parent, kids, place, ran⟩
  · rw [refused]
    exact .refused why
  · rw [ran]
    exact (create_file_at_records holds consistent storable place fun none _ _ _ _ _ _ _ => none).mono
      fun _ _ _ held => ⟨held.1.1, held.2⟩
theorem create_file_ends (holds : Holds g v fs) (consistent : Consistent g v N) (path : List UInt8) {data : Bytes}
    (storable : Storable g.block_size (div_ceil data.size g.block_size)) :
    Creation g v N fs path (Refused fs path) (div_ceil data.size g.block_size)
      (Filled g data)
      ((create_file path data).run fs) :=
  (create_file_records holds consistent path storable).mono fun _ _ _ held => held.1

/-! ### Links -/

/-- The inode of a new link. -/
def link_inode (size : Nat) (block : FixedBytes 60) : Inode where
  mode := 0o120777
  uid := 0
  gid := 0
  size := .ofNat size
  atime := 0
  ctime := 0
  mtime := 0
  dtime := 0
  links_count := 1
  blocks_lo := 0
  blocks_hi := 0
  flags := 0
  block
  generation := 0
  file_acl_lo := 0
  file_acl_hi := 0

/-- `symlink` from the name on. -/
def symlink_at (target : Bytes) (parent_inode : Inode) (linkname : List UInt8) : Call UInt32 := do
  let new_inode_num ← allocate_inode
  let block_bytes ← lift ((zeros I_BLOCK_LEN).copy 0 target)
  write_inode new_inode_num (link_inode target.size (.ofSlice block_bytes 0 60))
  add_dir_entry parent_inode linkname new_inode_num 7
  flush_metadata
  pure new_inode_num

theorem symlink_eq (path : List UInt8) (target : Bytes) :
    symlink path target = (do
      lift (ensure (target.size ≠ 0) (.InvalidLayout "symlink target must not be empty"))
      lift (ensure (target.size ≤ I_BLOCK_LEN) (.SymlinkTargetTooLong target.size))
      under path fun _ parent_inode linkname => symlink_at target parent_inode linkname) := rfl

/-- The target does not fit an inode, or the path is refused. -/
def RefusedLink (fs : Filesystem) (path : List UInt8) (target : Bytes) : Prop :=
  target.size = 0 ∨ 60 < target.size ∨ Refused fs path

/-- A link that is written but not named. -/
theorem prepared_link (fresh : Fresh g v N n) (listed : n.toNat ≤ g.inodes) {target : Bytes} (some : target.size ≠ 0)
    (short : target.size ≤ 60) (block : FixedBytes 60) :
    Prepared g v ((v.takeInode (n.toNat - 1)).setSlot n (link_inode target.size block)) N n .link := by
  have number := fresh.number
  have word := per_group_word g
  have inside := fresh.inside
  have taken : (v.takeInode (n.toNat - 1)).inodeBit (n.toNat - 1) = true := by simp [Volume.takeInode]
  have slot : ((v.takeInode (n.toNat - 1)).setSlot n (link_inode target.size block)).slot n =
      link_inode target.size block := if_pos rfl
  have size : (UInt64.ofNat target.size).toNat = target.size := by
    rw [UInt64.toNat_ofNat']
    omega
  refine ⟨(Wasted.inode fresh).slot fresh.dead taken _, ⟨fresh.dead, ?_, fun _ b _ owns => owns⟩, ?_, fun b set => .inl set⟩
  · refine ⟨.inr fresh.number, listed, fresh.covered, taken, ⟨?_, ?_, ?_, ?_, ?_⟩, fun b owns => owns.elim⟩
    · rw [slot]
      show (0o120777 : UInt16) &&& Inode.S_IFMT = Inode.S_IFLNK
      decide
    · rw [slot]; rfl
    · rw [slot]
      show 1 ≤ (UInt64.ofNat target.size).toNat ∧ (UInt64.ofNat target.size).toNat ≤ 60
      omega
    · rw [slot]; rfl
    · rw [slot]; rfl
  · intro i
    rfl

theorem symlink_at_takes (holds : Holds g v fs) (consistent : Consistent g v N) {target : Bytes}
    (some : target.size ≠ 0) (short : target.size ≤ 60) (place : Place g v N path parent_path name p block parent kids)
    (why : NoInode fs → refusal) :
    Creation g v N fs path refusal 0 (fun v' n x => (x = .link ∧ linkBytes v' n = target) ∧ Takes fs 0 n x)
      ((symlink_at target (v.slot p) name).run fs) := by
  have copied : (zeros I_BLOCK_LEN).copy 0 target = (.ok ((zeros 60).patch 0 target) : Res Ext4Error Bytes) :=
    copy_ok (by simpa [I_BLOCK_LEN] using short)
  rcases allocate_fresh holds consistent with ⟨-, none, full⟩ | ⟨n, fs₁, fresh, taken, holds₁⟩
  case inl =>
    simp only [symlink_at, run_bind, full, andThen_err]
    exact .refused (why none)
  by_cases listed : n.toNat ≤ g.inodes
  case neg =>
    obtain ⟨e, refused⟩ := write_inode_out holds₁ (Nat.lt_of_not_le listed)
      (link_inode target.size (.ofSlice ((zeros 60).patch 0 target) 0 60))
    simp only [symlink_at, run_bind, taken, andThen_ok, run_lift, copied, ofRes_ok, refused, andThen_err]
    exact .wasted holds₁ (Wasted.inode fresh) (.inodes (fresh.few listed))
  case pos =>
    have number := fresh.number
    obtain ⟨fs₂, written, holds₂⟩ := write_inode_ok holds₁ (n := n) (by omega) listed
      (link_inode target.size (.ofSlice ((zeros 60).patch 0 target) 0 60))
    have rest : (symlink_at target (v.slot p) name).run fs =
        (do add_dir_entry (v.slot p) name n 7; flush_metadata; pure n : Call UInt32).run fs₂ := by
      simp only [symlink_at, run_bind, taken, andThen_ok, run_lift, copied, ofRes_ok, written]
    rw [rest]
    refine enter_leaf (x := .link) consistent holds₂ (prepared_link fresh listed some short _) fresh place
      (show (7 : UInt8) ≠ 2 by decide) fun block_buf =>
        ⟨⟨rfl, ?_⟩, 0, ⟨fs₁, fs₁, taken, allocate_none fs₁⟩, fun b owns => owns.elim⟩
    have slot : (((v.takeInode (n.toNat - 1)).setSlot n
        (link_inode target.size (.ofSlice ((zeros 60).patch 0 target) 0 60))).setBlock block block_buf).slot n =
        link_inode target.size (.ofSlice ((zeros 60).patch 0 target) 0 60) := if_pos rfl
    have size : (UInt64.ofNat target.size).toNat = target.size := by
      rw [UInt64.toNat_ofNat']
      omega
    rw [linkBytes, slot]
    show (((zeros 60).patch 0 target).slice 0 60).slice 0 (UInt64.ofNat target.size).toNat = target
    rw [size, slice_slice _ (by omega)]
    exact slice_patch_same _ _ _

theorem symlink_at_ends (holds : Holds g v fs) (consistent : Consistent g v N) {target : Bytes}
    (some : target.size ≠ 0) (short : target.size ≤ 60) (place : Place g v N path parent_path name p block parent kids)
    (why : NoInode fs → refusal) :
    Creation g v N fs path refusal 0 (fun v' n x => x = .link ∧ linkBytes v' n = target)
      ((symlink_at target (v.slot p) name).run fs) :=
  (symlink_at_takes holds consistent some short place why).mono fun _ _ _ held => held.1

theorem symlink_ends (holds : Holds g v fs) (consistent : Consistent g v N) (path : List UInt8) (target : Bytes) :
    Creation g v N fs path (RefusedLink fs path target) 0 (fun v' n x => x = .link ∧ linkBytes v' n = target)
      ((symlink path target).run fs) := by
  rw [symlink_eq]
  by_cases some : target.size ≠ 0
  case neg =>
    simp only [run_bind, run_lift, ensure_not some, ofRes_err, andThen_err]
    exact .refused (.inl (by simpa using some))
  by_cases short : target.size ≤ I_BLOCK_LEN
  case neg =>
    simp only [run_bind, run_lift, ensure_of some, ofRes_ok, andThen_ok, ensure_not short, ofRes_err, andThen_err]
    exact .refused (.inr (.inl (Nat.lt_of_not_le short)))
  simp only [run_bind, run_lift, ensure_of some, ofRes_ok, andThen_ok, ensure_of short]
  rcases under_ends path holds consistent (fun _ parent_inode linkname => symlink_at target parent_inode linkname)
    with ⟨why, e, refused⟩ | ⟨parent_path, name, p, block, parent, kids, place, ran⟩
  · rw [refused]
    exact .refused (.inr (.inr why))
  · rw [ran]
    exact symlink_at_ends holds consistent some short place fun none => .inr (.inr fun _ _ _ _ _ _ _ => none)

/-! ### Directories -/

/-- The inode of a new directory. -/
def dir_inode (block_size : Nat) (block : FixedBytes 60) : Inode where
  mode := 0o040755
  uid := 0
  gid := 0
  size := .ofNat block_size
  atime := 0
  ctime := 0
  mtime := 0
  dtime := 0
  links_count := 2
  blocks_lo := .ofNat (block_size / 512)
  blocks_hi := 0
  flags := INODE_FLAG_EXTENTS
  block
  generation := 0
  file_acl_lo := 0
  file_acl_hi := 0

/-- `mkdir` from the name on. -/
def mkdir_at (parent_inode_num : UInt32) (parent_inode : Inode) (dirname : List UInt8) : Call UInt32 := do
  let block_size ← reads fun fs => .ok fs.superblock.block_size.toNat
  let new_inode_num ← allocate_inode
  let dir_block ← allocate_blocks_contiguous 1
  let block ← lift (i_block [run dir_block 1])
  write_inode new_inode_num (dir_inode block_size block)
  lift (orPanic (12 ≤ block_size % 65536))
  let data ← lift (liftErr .DirEntryEncode (encode_range ⟨new_inode_num, 12, 2, DOT⟩ (zeros block_size) 0 12))
  let data ← lift (liftErr .DirEntryEncode
    (encode_range ⟨parent_inode_num, .ofNat (block_size % 65536 - 12), 2, DOTDOT⟩ data 12 block_size))
  let offset ← lift (in_u64 (dir_block * block_size))
  write_at offset data
  add_dir_entry parent_inode dirname new_inode_num 2
  lift (orPanic (parent_inode.links_count.toNat + 1 < 65536))
  write_inode parent_inode_num { parent_inode with links_count := .ofNat (parent_inode.links_count.toNat + 1) }
  reads fun fs => do
    let gd ← gdt_at fs 0
    orPanic (gd.used_dirs_count.toNat + 1 < 4294967296)
  change_gdt0 (on_used_dirs (· + 1))
  flush_metadata
  pure new_inode_num

theorem mkdir_eq (path : List UInt8) : mkdir path = under path mkdir_at := rfl

/-- Taking an inode and blocks leaves the count of directories. -/
theorem used_dirs_taken (i start count : Nat) {gd : GroupDescriptor}
    (found : ((v.takeInode i).takeBlocks start count).gdt[0]? = some gd) :
    ∃ gd₀, v.gdt[0]? = some gd₀ ∧ gd.used_dirs_count = gd₀.used_dirs_count := by
  obtain ⟨mid, there, rfl⟩ := group_change found
  obtain ⟨gd₀, before, rfl⟩ := group_change there
  exact ⟨gd₀, before, rfl⟩

/-- A directory that is written but not named. -/
theorem prepared_dir (consistent : Consistent g v N) (fresh : Fresh g v N n) (listed : n.toNat ≤ g.inodes)
    {b : Nat} (low : g.root ≤ b) (high : b < g.limit) (clear : v.blockBit b = false) {data : Bytes}
    (size : data.size = g.block_size) (lists : Lists data (listing n p [])) :
    Prepared g v ((((v.takeInode (n.toNat - 1)).takeBlocks b 1).setSlot n
      (dir_inode g.block_size (runBlock b 1))).setBlock b data) N n (.dir b p []) := by
  have clear' : ∀ j, b ≤ j → j < b + 1 → v.blockBit j = false := fun j from_ below => by
    rw [show j = b by omega]
    exact clear
  have unowned := unowned_clear consistent clear'
  have number := fresh.number
  have word := per_group_word g
  have inside := fresh.inside
  have bounded := g.bounded
  have slot : ((((v.takeInode (n.toNat - 1)).takeBlocks b 1).setSlot n
      (dir_inode g.block_size (runBlock b 1))).setBlock b data).slot n = dir_inode g.block_size (runBlock b 1) :=
    if_pos rfl
  have here : ((((v.takeInode (n.toNat - 1)).takeBlocks b 1).setSlot n
      (dir_inode g.block_size (runBlock b 1))).setBlock b data).block b = data := if_pos rfl
  refine ⟨?_, ⟨fresh.dead, ?_, ?_⟩, ?_, ?_⟩
  · rw [← setBlocks_one size]
    exact ((Wasted.inode fresh).blocks high clear').slot fresh.dead (by simp [Volume.takeBlocks, Volume.takeInode]) _
      |>.data _ unowned
  · refine ⟨.inr fresh.number, listed, fresh.covered, ?_, ?_, fun b' owns => ?_⟩
    · simp [Volume.setBlock, Volume.setSlot, Volume.takeBlocks, Volume.takeInode]
    · refine ⟨?_, ?_, ?_, ?_, ?_, ?_, ?_, ?_⟩
      · rw [slot]
        show (0o040755 : UInt16) &&& Inode.S_IFMT = Inode.S_IFDIR
        decide
      · rw [slot]; rfl
      · rw [slot]
        show (UInt64.ofNat g.block_size).toNat = _
        rw [UInt64.toNat_ofNat']
        omega
      · rw [slot]; rfl
      · rw [slot]; rfl
      · rw [slot]; rfl
      · rw [here]; exact size
      · rw [here]; exact lists
    · have same : b' = b := owns
      subst same
      refine ⟨low, high, ?_⟩
      simp [Volume.setBlock, Volume.setSlot, Volume.takeBlocks]
  · intro m y found b' owns owns'
    have same : b' = b := owns'
    exact unowned m y b' found owns ⟨by omega, by omega⟩
  · intro i
    rfl
  · intro b' set
    simp only [Volume.setBlock, Volume.setSlot, Volume.takeBlocks, Volume.takeInode, Bool.or_eq_true,
      decide_eq_true_eq] at set
    refine set.imp_right fun same => ?_
    show b' = b
    omega

/-- A directory whose dots leave all of its block to new names. -/
def Bare (g : Geometry) (v : Volume) (_ : UInt32) (x : Node) : Prop :=
  x.code = 2 ∧ ∀ b, x.Owns b → tail_room (v.block b) = g.block_size - 24

theorem mkdir_at_takes (holds : Holds g v fs) (consistent : Consistent g v N)
    (place : Place g v N path parent_path name p block parent kids)
    (why : NoInode fs → refusal) :
    Creation g v N fs path refusal 1 (fun v' n x => Bare g v' n x ∧ Takes fs 1 n x)
      ((mkdir_at p (v.slot p) name).run fs) := by
  have size := holds.static'.block_size
  have found := place.directory.found
  rcases allocate_fresh holds consistent with ⟨-, none, full⟩ | ⟨n, fs₁, fresh, taken, holds₁⟩
  case inl =>
    simp only [mkdir_at, run_bind, run_reads, ofRes_ok, andThen_ok, full, andThen_err]
    exact .refused (why none)
  have wasted₁ := Wasted.inode fresh
  have consistent₁ := consistent.spared wasted₁.spared
  rcases allocate_run holds₁ consistent₁ 1 with
    ⟨none, e, full⟩ | ⟨panicked, past⟩ | ⟨b, fs₂, low, high, clear, ran, holds₂⟩
  · simp only [mkdir_at, run_bind, run_reads, ofRes_ok, andThen_ok, taken, full, andThen_err]
    exact .wasted holds₁ wasted₁ (.blocks none)
  · simp only [mkdir_at, run_bind, run_reads, ofRes_ok, andThen_ok, taken, panicked, andThen_panic]
    exact .panicked fun modest => absurd modest.blocks_fit (Nat.not_le_of_lt past)
  have wasted₂ := wasted₁.blocks high clear
  have total := g.limit_total
  have extents : i_block [run b 1] = .ok (runBlock b 1) := Runs.i_block_runs b 1 (by decide)
  by_cases listed : n.toNat ≤ g.inodes
  case neg =>
    obtain ⟨e, refused⟩ := write_inode_out holds₂ (Nat.lt_of_not_le listed) (dir_inode g.block_size (runBlock b 1))
    simp only [mkdir_at, run_bind, run_reads, ofRes_ok, andThen_ok, taken, size, ran, run_lift, extents, refused,
      andThen_err]
    exact .wasted holds₂ wasted₂ (.inodes (fresh.few listed))
  have number := fresh.number
  obtain ⟨fs₃, written, holds₃⟩ := write_inode_ok holds₂ (n := n) (by omega) listed (dir_inode g.block_size (runBlock b 1))
  -- A length of 65536 bytes does not fit the record of the second dot.
  by_cases narrow : 12 ≤ g.block_size % 65536
  case neg =>
    simp only [mkdir_at, run_bind, run_reads, ofRes_ok, andThen_ok, taken, size, ran, run_lift, extents, written,
      decide_eq_false narrow, orPanic_false, ofRes_panic, andThen_panic]
    exact .panicked fun modest => by
      have other := modest.narrow
      rcases g.known with known | known | known | known <;> omega
  have whole : g.block_size % 65536 = g.block_size := by
    rcases g.known with known | known | known | known <;> omega
  have bounded := g.bounded
  have positive := g.positive
  obtain ⟨mid, data, dot, dotdot, dataSize, lists, -, dotsRoom⟩ := dots_ok g.block_size (by omega)
    (by rcases g.known with known | known | known | known <;> omega) (by omega) n p
  have inside := g.block_inside (p := b) (by omega)
  have small := g.total_small
  obtain ⟨fs₄, filled, holds₄⟩ := write_block_ok holds₃ dataSize (low (by decide)) (by omega)
  have prepared := prepared_dir consistent fresh listed (low (by decide)) (by omega) (clear b (Nat.le_refl _) (by omega))
    dataSize lists
  obtain ⟨one, sound, same⟩ := prepared.oneBlock consistent found
  have parentLists := DirBacked.lists sound.backed
  have start : (mkdir_at p (v.slot p) name).run fs =
      (do
        add_dir_entry (v.slot p) name n 2
        lift (orPanic ((v.slot p).links_count.toNat + 1 < 65536))
        write_inode p { v.slot p with links_count := .ofNat ((v.slot p).links_count.toNat + 1) }
        reads fun fs => do
          let gd ← gdt_at fs 0
          orPanic (gd.used_dirs_count.toNat + 1 < 4294967296)
        change_gdt0 (on_used_dirs (· + 1))
        flush_metadata
        pure n : Call UInt32).run fs₄ := by
    simp only [mkdir_at, run_bind, run_reads, ofRes_ok, andThen_ok, taken, size, ran, run_lift, extents, written, whole,
      decide_eq_true (show 12 ≤ g.block_size by omega), orPanic_true, dot, dotdot, liftErr_ok,
      in_u64_ok (show b * g.block_size < _ by omega), filled]
  rw [start]
  cases room : has_room ((((v.takeInode (n.toNat - 1)).takeBlocks b 1).setSlot n
      (dir_inode g.block_size (runBlock b 1))).setBlock b data |>.block block) name with
  | false =>
    obtain ⟨e, refused⟩ := add_dir_entry_full holds₄ one parentLists room n 2
    simp only [run_bind, refused, andThen_err]
    rw [prepared.wasted.spared.block p _ block found rfl] at room
    exact .wasted holds₄ prepared.wasted (.room place room)
  | true =>
  obtain ⟨block_buf, fs₅, added, holds₅, bufSize, newLists, entered⟩ := add_dir_entry_ok holds₄ one parentLists room n 2
  have few := links_few consistent found
  obtain ⟨fs₆, linked, holds₆⟩ := write_inode_ok holds₅ (n := p) sound.low sound.listed
    { v.slot p with links_count := .ofNat ((v.slot p).links_count.toNat + 1) }
  obtain ⟨gd, group, -⟩ := gdt_at_ok holds₆
  by_cases fewer : gd.used_dirs_count.toNat + 1 < 4294967296
  case neg =>
    simp only [run_bind, added, andThen_ok, run_lift, decide_eq_true few, orPanic_true, ofRes_ok, linked, run_reads,
      group, res_bind_ok, decide_eq_false fewer, orPanic_false, ofRes_panic, andThen_panic]
    exact .panicked fun modest => by
      obtain ⟨gd', before, same⟩ := used_dirs_taken _ b 1 (group_of_gdt_at holds₆ group)
      have used := (modest.group gd' before).2.2
      have bounded := g.bounded
      rw [same] at fewer
      omega
  have counted := holds₆.onGroup0 (f := on_used_dirs (· + 1)) fun _ => ⟨rfl, rfl, rfl⟩
  obtain ⟨fs₇, flushed, holds₇, out⟩ := flush_metadata_ok counted (prepared.large number)
  simp only [run_bind, added, andThen_ok, run_lift, decide_eq_true few, orPanic_true, ofRes_ok, linked, run_reads,
    group, res_bind_ok, decide_eq_true fewer, change_gdt0, run_change, flushed, run_pure]
  have links : (UInt16.ofNat ((v.slot p).links_count.toNat + 1)).toNat = 2 + subdirs (kids ++ [⟨name, n, 2⟩]) := by
    have old : DirBacked g v p block parent kids := (consistent.sound found).backed
    have count := old.links
    rw [toNat_ofNat16 few, subdirs_append, if_pos rfl]
    omega
  have relisted := (relisted_links ((((v.takeInode (n.toNat - 1)).takeBlocks b 1).setSlot n
    (dir_inode g.block_size (runBlock b 1))).setBlock b data) p block _ bufSize
      (listing_append p parent kids _ ▸ newLists) links).onGroup0 (on_used_dirs (· + 1))
  rw [same] at relisted
  have here : ((((((v.takeInode (n.toNat - 1)).takeBlocks b 1).setSlot n (dir_inode g.block_size (runBlock b 1))).setBlock b
      data).setBlock block block_buf).setSlot p { v.slot p with links_count := .ofNat ((v.slot p).links_count.toNat + 1) }
      |>.onGroup0 (on_used_dirs (· + 1))).block block = block_buf := if_pos rfl
  rw [← here] at entered
  have bare : Bare g (((((((v.takeInode (n.toNat - 1)).takeBlocks b 1).setSlot n (dir_inode g.block_size (runBlock b 1))).setBlock b
      data).setBlock block block_buf).setSlot p { v.slot p with links_count := .ofNat ((v.slot p).links_count.toNat + 1) }
      |>.onGroup0 (on_used_dirs (· + 1)))) n (.dir b p []) := by
    refine ⟨rfl, fun b' owns => ?_⟩
    cases show b' = b from owns
    have other : b ≠ block := by
      rintro rfl
      have taken := ((consistent₁.sound found).owned b rfl).2.2
      rw [clear b (Nat.le_refl _) (by omega)] at taken
      cases taken
    have whose : ((v.takeInode (n.toNat - 1)).takeBlocks b 1 |>.setSlot n (dir_inode g.block_size (runBlock b 1))
        |>.setBlock b data |>.setBlock block block_buf).block b = data := (if_neg other).trans (if_pos rfl)
    exact (congrArg tail_room whose).trans dotsRoom
  have takes : Takes fs 1 n (.dir b p []) :=
    ⟨b, ⟨fs₁, fs₂, taken, ran⟩, fun b' owns => by cases show b' = b from owns; omega⟩
  refine .made holds₇ out (prepared.grown consistent place rfl (fun q member => by cases member; rfl) relisted fresh ?_ ?_)
    ⟨bare, takes⟩
  · exact entered
  intro used old
  have there : fs₆.gdt[0]? = some gd := by
    rw [gdt_at] at group
    split at group
    · rename_i hit
      cases group
      exact hit
    · cases group
  have word : gd.used_dirs_count.toNat = used := (old.group gd (holds₆.gdt ▸ there)).2.2
  have raised := ((old.setBlock block block_buf).setSlot p
    { v.slot p with links_count := .ofNat ((v.slot p).links_count.toNat + 1) }).useDirs (f := (· + 1)) fun _ => by omega
  rw [show (Node.dir b p []).code = 2 from rfl, if_pos rfl]
  exact raised

theorem mkdir_at_ends (holds : Holds g v fs) (consistent : Consistent g v N)
    (place : Place g v N path parent_path name p block parent kids)
    (why : NoInode fs → refusal) :
    Creation g v N fs path refusal 1 (Bare g) ((mkdir_at p (v.slot p) name).run fs) :=
  (mkdir_at_takes holds consistent place why).mono fun _ _ _ held => held.1

theorem mkdir_ends (holds : Holds g v fs) (consistent : Consistent g v N) (path : List UInt8) :
    Creation g v N fs path (Refused fs path) 1 (Bare g) ((mkdir path).run fs) := by
  rw [mkdir_eq]
  rcases under_ends path holds consistent mkdir_at
    with ⟨why, e, refused⟩ | ⟨parent_path, name, p, block, parent, kids, place, ran⟩
  · rw [refused]
    exact .refused why
  · rw [ran]
    exact mkdir_at_ends holds consistent place fun none _ _ _ _ _ _ _ => none
end

end Justext4.Create
