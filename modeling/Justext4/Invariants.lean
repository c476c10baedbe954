import Mathlib.Data.Set.Card
import Justext4.Progress
import Justext4.View

/-!
What holds of the image in every state reached, said of the image itself: which
blocks the inodes in the tree map and which bits are set for them, what the
blocks of the directories list, and what the counts in memory count.
-/
namespace Justext4.Invariants
open Justext4 Justext4.Fallible Justext4.Filesystem Justext4.Volumes Justext4.Mkfs Bytes
open Justext4.Inode (Inode)
open Justext4.DirEntry (DirEntry WellFormed is_unused)
open Justext4.DirBlock
open Justext4.NamedTree
open Justext4.Nodes
open Justext4.Backing
open Justext4.Counts
open Justext4.Allocation
open Justext4.Reading
open Justext4.Entries
open Justext4.Rename (first_block_dir entry_file_type_ok)
open Justext4.View
open Justext4.Calls
open Justext4.Progress (lost_file)

/-! ### Blocks and bits -/

/-- The extents of the inode map a block of the file to the block. -/
def Maps (fs : Filesystem) (n : UInt32) (b : Nat) : Prop :=
  ∃ inode logical, read_inode fs n = .ok inode ∧ resolve_logical_block fs inode logical = .ok (some b)

/-- A bit of the bitmap that the first descriptor gives. -/
def bit_of (fs : Filesystem) (bitmap : GroupDescriptor.GroupDescriptor → UInt64) (i : Nat) : Bool :=
  match gdt_at fs 0 with
  | .ok gd =>
    match load_block fs (bitmap gd).toNat with
    | .ok (_, buf) => Bitmap.get_bit buf i
    | .error _ => false
  | .error _ => false
def block_bit (fs : Filesystem) (i : Nat) : Bool := bit_of fs (·.block_bitmap) i
def inode_bit (fs : Filesystem) (i : Nat) : Bool := bit_of fs (·.inode_bitmap) i

section
variable {g : Geometry} {v : Volume} {N : NodeMap} {fs : Filesystem} {n : UInt32} {x : Node}

theorem bit_of_eq (holds : Holds g v fs) (i : Nat) :
    block_bit fs i = Bitmap.get_bit (blockAt g fs.reader 2) i ∧
      inode_bit fs i = Bitmap.get_bit (blockAt g fs.reader 3) i := by
  have static := holds.static'
  obtain ⟨gd, found, blocks, inodes, -⟩ := static.gdt_at fs.reader
  have root := g.root_inside
  have second : load_block fs 2 = _ := load_block_ok static holds.size (by omega)
  have third : load_block fs 3 = _ := load_block_ok static holds.size (by omega)
  simp only [block_bit, inode_bit, bit_of, found, blocks, inodes, show (2 : UInt64).toNat = 2 from rfl,
    show (3 : UInt64).toNat = 3 from rfl, second, third, and_self]
theorem block_bit_eq (holds : Holds g v fs) {i : Nat} (small : i < 8 * g.block_size) : block_bit fs i = v.blockBit i := by
  rw [(bit_of_eq holds i).1, holds.block_bits i small]
theorem inode_bit_eq (holds : Holds g v fs) {i : Nat} (small : i < 8 * g.block_size) : inode_bit fs i = v.inodeBit i := by
  rw [(bit_of_eq holds i).2, holds.inode_bits i small]

/-- An inode maps the blocks of its node. -/
theorem maps_iff (holds : Holds g v fs) (consistent : Consistent g v N) (found : N n = some x) (b : Nat) :
    Maps fs n b ↔ x.Owns b := by
  have sound := consistent.sound found
  have read := read_node holds consistent (live_of found)
  have resolve : Maps fs n b ↔ ∃ logical, resolve_logical_block fs (v.slot n) logical = .ok (some b) := by
    constructor
    · rintro ⟨inode, logical, here, mapped⟩
      cases read.symm.trans here
      exact ⟨logical, mapped⟩
    · rintro ⟨logical, mapped⟩
      exact ⟨_, logical, read, mapped⟩
  rw [resolve]
  have run : ∀ {start count : Nat}, (v.slot n).flags = Inode.INODE_FLAG_EXTENTS →
      (v.slot n).block = Runs.runBlock start count → count ≤ 32768 → start < 281474976710656 →
      ((∃ logical, resolve_logical_block fs (v.slot n) logical = .ok (some b)) ↔ start ≤ b ∧ b < start + count) := by
    intro start count flags block short small
    simp only [Runs.resolve_runs flags block short small, Except.ok.injEq, Option.ite_none_right_eq_some, Option.some.injEq]
    constructor
    · rintro ⟨logical, inside, rfl⟩
      omega
    · rintro ⟨low, high⟩
      exact ⟨b - start, by omega, by omega⟩
  cases x with
  | dir block parent kids =>
    have backed : DirBacked g v n block parent kids := sound.backed
    have inside := (sound.owned block rfl).2.1
    have limit := g.limit_total
    have total := g.total_high
    rw [run backed.flags backed.run (by decide) (by omega)]
    show _ ↔ b = block
    omega
  | file start count =>
    have backed : FileBacked g v n start count := sound.backed
    exact run backed.flags backed.run backed.short backed.small
  | link =>
    have backed : LinkBacked v n := sound.backed
    have plain : Inode.uses_extents (v.slot n) = false := by rw [Inode.uses_extents, backed.flags]; decide
    simp only [resolve_logical_block, plain, ensure_false, res_bind_error, reduceCtorEq, exists_false, false_iff]
    exact id
end

/-- No block and no inode is given out twice. -/
structure Allocated (config : Config) (fs : Filesystem) : Prop where
  apart : ∀ n m b, Reaches fs n → Reaches fs m → n ≠ m → Maps fs n b → ¬ Maps fs m b
  past_metadata : ∀ layout, Layout.from_config config = .ok layout →
    ∀ n b, Reaches fs n → Maps fs n b → layout.root_dir_block ≤ b
  blocks_taken : ∀ n b, Reaches fs n → Maps fs n b → block_bit fs b = true
  inodes_taken : ∀ n, Reaches fs n → 1 ≤ n.toNat ∧ inode_bit fs (n.toNat - 1) = true
  reserved : ∀ i < 10, inode_bit fs i = true
  never_reserved : ∀ n fs', allocate_inode.run fs = .ok n fs' → 11 ≤ n.toNat
  clear : ∀ n : UInt32, 1 ≤ n.toNat → n.toNat ≤ config.inodes_per_group.toNat → inode_bit fs (n.toNat - 1) = false →
    ∃ inode, read_inode fs n = .ok inode ∧ inode.links_count = 0

/-- Every bit that is set is that of the metadata or of an inode in the tree. -/
structure Accounted (config : Config) (fs : Filesystem) : Prop where
  blocks : ∀ layout, Layout.from_config config = .ok layout → ∀ b < config.size_blocks.toNat, block_bit fs b = true →
    b < layout.root_dir_block ∨ ∃ n, Reaches fs n ∧ Maps fs n b
  inodes : ∀ i < config.inodes_per_group.toNat, inode_bit fs i = true → i < 10 ∨ Reaches fs (.ofNat (i + 1))

section
variable {config : Config} {g : Geometry} {v : Volume} {N : NodeMap} {fs : Filesystem}

theorem whole_root (whole : Whole config g) {layout : Layout} (laid : Layout.from_config config = .ok layout) :
    g.root = layout.root_dir_block := by
  obtain ⟨other, laid', root⟩ := whole.laid
  cases laid.symm.trans laid'
  exact root

theorem allocated_of_backs (whole : Whole config g) (holds : Holds g v fs) (consistent : Consistent g v N) :
    Allocated config fs := by
  have inodes := whole.inodes
  have inodes_fit := whole.inodes_fit
  have per_group := whole.per_group
  have limit := g.limit_bitmap
  have inside := g.root_covered
  have node : ∀ {n}, Reaches fs n → ∃ x, N n = some x := fun reached =>
    Option.ne_none_iff_exists'.mp ((reaches_iff holds consistent).mp reached)
  have owns : ∀ {n b}, Reaches fs n → Maps fs n b → ∃ x, N n = some x ∧ x.Owns b := by
    intro n b reached maps
    obtain ⟨x, found⟩ := node reached
    exact ⟨x, found, (maps_iff holds consistent found b).mp maps⟩
  have reserved : ∀ i < 10, inode_bit fs i = true := fun i small => by
    have positive := g.positive
    rw [inode_bit_eq holds (by omega), consistent.reserved i small]
  refine ⟨?_, ?_, ?_, ?_, reserved, ?_, ?_⟩
  · intro n m b reached reached' other maps maps'
    obtain ⟨x, found, owned⟩ := owns reached maps
    obtain ⟨y, found', owned'⟩ := owns reached' maps'
    exact consistent.apart found found' other b owned owned'
  · intro layout laid n b reached maps
    obtain ⟨x, found, owned⟩ := owns reached maps
    rw [← whole_root whole laid]
    exact ((consistent.sound found).owned b owned).1
  · intro n b reached maps
    obtain ⟨x, found, owned⟩ := owns reached maps
    obtain ⟨-, high, set⟩ := (consistent.sound found).owned b owned
    rw [block_bit_eq holds (by omega), set]
  · intro n reached
    obtain ⟨x, found⟩ := node reached
    have sound := consistent.sound found
    have low := sound.low
    have covered := sound.covered
    rw [inode_bit_eq holds (by omega)]
    exact ⟨low, sound.taken⟩
  · intro n fs' ran
    rcases Create.allocate_fresh holds consistent with ⟨-, -, refused⟩ | ⟨m, fs'', fresh, ran', -⟩
    · rw [refused] at ran
      cases ran
    · rw [ran'] at ran
      cases ran
      exact fresh.number
  · intro n low high clear
    rw [inode_bit_eq holds (by omega)] at clear
    exact ⟨v.slot n, read_inode_ok holds low (by omega), consistent.clear n low (by omega) (by omega) clear⟩

theorem accounted_of_tight (whole : Whole config g) (holds : Holds g v fs) (consistent : Consistent g v N)
    (tight : Tight g v N) : Accounted config fs := by
  have total := whole.total
  have per_group := whole.per_group
  have blocks_fit := whole.blocks_fit
  have inodes_fit := whole.inodes_fit
  constructor
  · intro layout laid b small set
    rw [block_bit_eq holds (by omega)] at set
    rcases tight.blocks b (by omega) set with low | ⟨n, x, found, owned⟩
    · exact .inl (whole_root whole laid ▸ low)
    · exact .inr ⟨n, (reaches_iff holds consistent).mpr (live_of found), (maps_iff holds consistent found b).mpr owned⟩
  · intro i small set
    rw [inode_bit_eq holds (by omega)] at set
    exact (tight.inodes i (by omega) set).imp_right (reaches_iff holds consistent).mpr
end

/-- In every state reached no block and no inode is given out twice, and none is
    lost where no call has failed. -/
theorem reached_allocated {config : Config} {fs : Filesystem} (small : Small config)
    (reached : Reached config Admissible fs) :
    Allocated config fs ∧ (ReachedOk config Admissible fs → Accounted config fs) := by
  constructor
  · obtain ⟨g, whole, v, N, holds, consistent, -⟩ := reached_counted small reached
    exact allocated_of_backs whole holds consistent
  · intro reachedOk
    obtain ⟨g, whole, v, N, holds, consistent, -, tight⟩ := reached_tight small reachedOk
    exact accounted_of_tight whole holds consistent tight
/-- Nothing is lost by a directory, and nothing given out twice when a file that
    is too large has lost its inode. -/
theorem directory_allocated : ∃ fs fs',
    (execute (.mkdir [SLASH, 97])).run (fresh Config.default defaultLayout) = .ok (some 11) fs ∧
    (execute (.create_file [SLASH, 98] (zeros 65537))).run fs = .err (.NoSpace "blocks") fs' ∧ fs' ≠ fs ∧
    Allocated Config.default fs ∧ Accounted Config.default fs ∧ Allocated Config.default fs' := by
  obtain ⟨fs, fs', made, reachedOk, -, failed, differs, reached⟩ := lost_file
  obtain ⟨allocated, accounted⟩ := reached_allocated default_small reachedOk.reached
  exact ⟨fs, fs', made, failed, differs, allocated, accounted reachedOk, (reached_allocated default_small reached).1⟩

/-! ### Directories -/

/-- The entries of a directory and its links are as they have to be. -/
structure SoundDirectory (fs : Filesystem) (n : UInt32) (inode : Inode) (buf : Bytes) (es : List DirEntry) : Prop where
  tiled : Tiles buf 0 es buf.size
  records : ∀ e ∈ es, e.rec_len.toNat % 4 = 0 ∧ 8 + e.name.length ≤ e.rec_len.toNat
  dot : (es.filter fun e => !is_unused e && e.name == DOT).map (·.inode) = [n]
  dotdot : ∃ parent, (es.filter fun e => !is_unused e && e.name == DOTDOT).map (·.inode) = [parent] ∧
    (n = ROOT_INODE ∧ parent = ROOT_INODE ∨ ∃ name, Reaches fs parent ∧ child_of fs parent name = some n)
  names : ((es.filter fun e => !is_unused e).map (·.name)).Nodup
  types : ∀ e ∈ es, is_unused e = false → (e.file_type_raw = 1 ∨ e.file_type_raw = 2 ∨ e.file_type_raw = 7) ∧
    ∃ inode, read_inode fs e.inode = .ok inode ∧ entry_file_type inode = .ok e.file_type_raw
  links : inode.links_count.toNat =
    2 + es.countP fun e => !is_unused e && e.name != DOT && e.name != DOTDOT && e.file_type_raw == 2

/-- What a structural check finds of every inode in the tree. -/
structure Checked (fs : Filesystem) : Prop where
  directories : ∀ n inode, Reaches fs n → read_inode fs n = .ok inode → Inode.is_directory inode = true →
    ∃ offset buf es, first_block fs inode = .ok (offset, buf) ∧ buf.size = fs.superblock.block_size.toNat ∧
      SoundDirectory fs n inode buf es
  others : ∀ n inode, Reaches fs n → read_inode fs n = .ok inode → Inode.is_directory inode = false →
    (Inode.is_regular inode = true ∨ Inode.is_symlink inode = true) ∧ inode.links_count = 1 ∧ inode.dtime = 0
  readable : ∀ n, Reaches fs n → ∃ inode, read_inode fs n = .ok inode

section
variable {g : Geometry} {v : Volume} {N : NodeMap} {fs : Filesystem} {n : UInt32}

theorem live_entries {es : List DirEntry} (used : ∀ e ∈ es, e.inode ≠ 0) (p : DirEntry → Bool) :
    es.filter (fun e => !is_unused e && p e) = es.filter p := by
  refine List.filter_congr fun e member => ?_
  have live : is_unused e = false := by simpa [is_unused] using used e member
  rw [live, Bool.not_false, Bool.true_and]
/-- Filtering entries by what they say is filtering what they say. -/
theorem filter_kid (es : List DirEntry) (p : Kid → Bool) (f : Kid → UInt32) :
    (es.filter fun e => p (kid e)).map (fun e => f (kid e)) = ((es.map kid).filter p).map f := by
  rw [List.filter_map, List.map_map]
  rfl

theorem directory_sound (holds : Holds g v fs) (consistent : Consistent g v N) {block : Nat} {parent : UInt32}
    {kids : List Kid} (found : N n = some (.dir block parent kids)) :
    ∃ es, SoundDirectory fs n (v.slot n) (v.block block) es := by
  have sound := consistent.sound found
  have linked := consistent.linked
  have backed : DirBacked g v n block parent kids := sound.backed
  obtain ⟨es, tiles, same⟩ := backed.lists
  have used := entries_used consistent found same
  have proper := linked.proper found
  have plain : ∀ k ∈ kids, (k.name == DOT) = false ∧ (k.name == DOTDOT) = false := fun k member =>
    ⟨by simpa using (proper k member).2.2.1, by simpa using (proper k member).2.2.2⟩
  have only : ∀ name, (es.filter fun e => !is_unused e && e.name == name).map (·.inode) =
      ((listing n parent kids).filter (·.name == name)).map (·.inode) := by
    intro name
    rw [live_entries used, ← same]
    exact filter_kid es (·.name == name) (·.inode)
  refine ⟨es, tiles, ?_, ?_, ⟨parent, ?_, ?_⟩, ?_, ?_, ?_⟩
  · intro e member
    have formed := tiles_formed tiles e member
    exact ⟨formed.aligned, formed.room⟩
  · have none : kids.filter (·.name == DOT) = [] :=
      List.filter_eq_nil_iff.mpr fun k member => by simp [(plain k member).1]
    rw [only, listing, List.filter_cons_of_pos (by simp), List.filter_cons_of_neg (by simp [DOT, DOTDOT]), none]
    rfl
  · have none : kids.filter (·.name == DOTDOT) = [] :=
      List.filter_eq_nil_iff.mpr fun k member => by simp [(plain k member).2]
    rw [only, listing, List.filter_cons_of_neg (by simp [DOT, DOTDOT]), List.filter_cons_of_pos (by simp), none]
    rfl
  · obtain ⟨b, q, ks, above, top | ⟨k, member, names⟩⟩ := parent_dir consistent found
    · obtain ⟨_, _, root⟩ := linked.root
      rw [top, root] at found
      cases found
      exact .inl ⟨top, rfl⟩
    · refine .inr ⟨k.name, (reaches_iff holds consistent).mpr (live_of above), ?_⟩
      rw [child_of_eq holds consistent (live_of above), child_dir above, named_mem (linked.names above) member, names]
  · have all : es.filter (fun e => !is_unused e) = es := by
      have filtered := live_entries used fun _ => true
      simpa using filtered
    have names : es.map (·.name) = (listing n parent kids).map (·.name) := by
      rw [← same, List.map_map]
      rfl
    rw [all, names, listing, List.map_cons, List.map_cons, List.nodup_cons, List.nodup_cons, List.mem_cons]
    refine ⟨?_, ?_, linked.names found⟩
    · rintro (dots | later)
      · cases dots
      · obtain ⟨k, member, hit⟩ := List.mem_map.mp later
        exact (proper k member).2.2.1 hit
    · intro later
      obtain ⟨k, member, hit⟩ := List.mem_map.mp later
      exact (proper k member).2.2.2 hit
  · intro e member _
    have listed : kid e ∈ listing n parent kids := same ▸ List.mem_map_of_mem member
    have node : ∃ x, N e.inode = some x ∧ e.file_type_raw = x.code := by
      rcases List.mem_cons.mp listed with first | later
      · exact ⟨.dir block parent kids, (congrArg (N ·.inode) first).trans found, congrArg Kid.code first⟩
      rcases List.mem_cons.mp later with second | later
      · obtain ⟨b, q, ks, above, -⟩ := parent_dir consistent found
        exact ⟨.dir b q ks, (congrArg (N ·.inode) second).trans above, congrArg Kid.code second⟩
      · obtain ⟨x, there, code, -⟩ := linked.kids found _ later
        exact ⟨x, there, code⟩
    obtain ⟨x, there, code⟩ := node
    rw [code]
    refine ⟨?_, _, read_node holds consistent (live_of there), entry_file_type_ok consistent there⟩
    cases x with
    | dir => exact .inr (.inl rfl)
    | file => exact .inl rfl
    | link => exact .inr (.inr rfl)
  · have counted : (es.countP fun e => !is_unused e && e.name != DOT && e.name != DOTDOT && e.file_type_raw == 2) =
        (listing n parent kids).countP fun k => k.name != DOT && k.name != DOTDOT && k.code == 2 := by
      rw [← same, List.countP_map]
      refine List.countP_congr fun e member => ?_
      have live : is_unused e = false := by simpa [is_unused] using used e member
      rw [live]
      rfl
    rw [backed.links, counted, listing, List.countP_cons_of_neg (by simp), List.countP_cons_of_neg (by simp), subdirs]
    congr 1
    refine List.countP_congr fun k member => ?_
    simp [plain k member, bne]

theorem checked_of_backs (holds : Holds g v fs) (consistent : Consistent g v N) : Checked fs := by
  have node : ∀ {n}, Reaches fs n → ∃ x, N n = some x := fun reached =>
    Option.ne_none_iff_exists'.mp ((reaches_iff holds consistent).mp reached)
  have read : ∀ {n x}, N n = some x → read_inode fs n = .ok (v.slot n) := fun found =>
    read_node holds consistent (live_of found)
  refine ⟨?_, ?_, fun n reached => ?_⟩
  · intro n inode reached here dir
    obtain ⟨x, found⟩ := node reached
    cases (read found).symm.trans here
    rw [(types_of_node (consistent.sound found).backed).1] at dir
    cases x with
    | dir block parent kids =>
      obtain ⟨es, sound⟩ := directory_sound holds consistent found
      refine ⟨_, _, es, first_block_dir holds consistent found, ?_, sound⟩
      rw [DirBacked.bytes (consistent.sound found).backed, holds.static'.block_size]
    | file => cases dir
    | link => cases dir
  · intro n inode reached here other
    obtain ⟨x, found⟩ := node reached
    cases (read found).symm.trans here
    have backed := (consistent.sound found).backed
    obtain ⟨directory, regular, link⟩ := types_of_node backed
    cases x with
    | dir => rw [directory] at other; cases other
    | file start count =>
      exact ⟨.inl regular, FileBacked.links backed, FileBacked.dtime backed⟩
    | link => exact ⟨.inr link, LinkBacked.links backed, LinkBacked.dtime backed⟩
  · obtain ⟨x, found⟩ := node reached
    exact ⟨_, read found⟩
end

/-- Every state reached passes the structural check. -/
theorem reached_checked {config : Config} {fs : Filesystem} (small : Small config)
    (reached : Reached config Admissible fs) : Checked fs := by
  obtain ⟨g, -, v, N, holds, consistent, -⟩ := reached_counted small reached
  exact checked_of_backs holds consistent
theorem directory_checked : ∃ fs fs',
    (execute (.mkdir [SLASH, 97])).run (fresh Config.default defaultLayout) = .ok (some 11) fs ∧
    (execute (.create_file [SLASH, 98] (zeros 65537))).run fs = .err (.NoSpace "blocks") fs' ∧ fs' ≠ fs ∧
    Checked fs ∧ Checked fs' := by
  obtain ⟨fs, fs', made, reachedOk, -, failed, differs, reached⟩ := lost_file
  exact ⟨fs, fs', made, failed, differs, reached_checked default_small reachedOk.reached, reached_checked default_small reached⟩

/-! ### Counts -/

/-- The directories in the tree. -/
def directories (fs : Filesystem) : Set UInt32 :=
  {n | Reaches fs n ∧ ∃ inode, read_inode fs n = .ok inode ∧ Inode.is_directory inode = true}

/-- The counts in memory are those of the bitmaps on the disk and of the tree. -/
structure Accurate (config : Config) (fs : Filesystem) : Prop where
  blocks : fs.superblock.free_blocks_count.toNat = clearBits (block_bit fs) config.size_blocks.toNat
  inodes : fs.superblock.free_inodes_count.toNat = clearBits (inode_bit fs) config.inodes_per_group.toNat
  group : ∃ gd, fs.gdt[0]? = some gd ∧
    gd.free_blocks_count.toNat = clearBits (block_bit fs) config.size_blocks.toNat ∧
    gd.free_inodes_count.toNat = clearBits (inode_bit fs) config.inodes_per_group.toNat ∧
    gd.used_dirs_count.toNat = (directories fs).ncard

section
variable {config : Config} {g : Geometry} {v : Volume} {N : NodeMap} {fs : Filesystem}

theorem directories_eq (holds : Holds g v fs) (consistent : Consistent g v N) :
    directories fs = {n | (N n).any (·.code == 2) = true} := by
  ext n
  constructor
  · rintro ⟨reached, inode, here, dir⟩
    obtain ⟨x, found⟩ := Option.ne_none_iff_exists'.mp ((reaches_iff holds consistent).mp reached)
    cases (read_node holds consistent (live_of found)).symm.trans here
    rw [(types_of_node (consistent.sound found).backed).1] at dir
    show (N n).any _ = true
    rw [found, Option.any_some, dir]
  · intro (dir : (N n).any _ = true)
    cases found : N n with
    | none => rw [found] at dir; cases dir
    | some x =>
      rw [found, Option.any_some] at dir
      exact ⟨(reaches_iff holds consistent).mpr (live_of found), _, read_node holds consistent (live_of found),
        (types_of_node (consistent.sound found).backed).1.trans dir⟩
/-- The directories in the tree are as many as are counted among the numbers. -/
theorem ncard_directories (holds : Holds g v fs) (consistent : Consistent g v N) : (directories fs).ncard = dirs g N := by
  have word := per_group_word g
  have high := g.inodes_high
  let numbers := (Finset.range (g.inodes + 1)).filter fun i => (N (.ofNat i)).any (·.code == 2) = true
  have apart : Set.InjOn UInt32.ofNat numbers := by
    intro i member j member' same
    have small := Finset.mem_range.mp (Finset.mem_filter.mp member).1
    have small' := Finset.mem_range.mp (Finset.mem_filter.mp member').1
    have values := congrArg UInt32.toNat same
    rwa [word32 (by omega), word32 (by omega)] at values
  have listed : directories fs = ↑(numbers.image UInt32.ofNat) := by
    rw [directories_eq holds consistent]
    ext n
    rw [Finset.coe_image]
    constructor
    · intro (dir : (N n).any _ = true)
      cases found : N n with
      | none => rw [found] at dir; cases dir
      | some x =>
        have inside := (consistent.sound found).listed
        refine ⟨n.toNat, Finset.mem_filter.mpr ⟨Finset.mem_range.mpr (by omega), ?_⟩, UInt32.ofNat_toNat⟩
        rw [UInt32.ofNat_toNat]
        exact dir
    · rintro ⟨i, member, rfl⟩
      exact (Finset.mem_filter.mp member).2
  have filtered : numbers.card =
      ((List.range (g.inodes + 1)).filter fun i => decide ((N (.ofNat i)).any (·.code == 2) = true)).length := rfl
  rw [listed, Set.ncard_coe_finset, Finset.card_image_of_injOn apart, filtered, dirs, List.countP_eq_length_filter]
  simp only [Bool.decide_eq_true]

theorem accurate_of_counted (whole : Whole config g) (holds : Holds g v fs) (consistent : Consistent g v N)
    (counted : Counted g v (dirs g N)) : Accurate config fs := by
  have blocks_fit := whole.blocks_fit
  have inodes_fit := whole.inodes_fit
  have total := whole.total
  have per_group := whole.per_group
  have blocks : clearBits (block_bit fs) config.size_blocks.toNat = clearBits v.blockBit g.total := by
    rw [← total]
    exact clearBits_congr fun i small => block_bit_eq holds (by omega)
  have inodes : clearBits (inode_bit fs) config.inodes_per_group.toNat = clearBits v.inodeBit g.per_group := by
    rw [← per_group]
    exact clearBits_congr fun i small => inode_bit_eq holds (by omega)
  obtain ⟨gd, found, -⟩ := holds.static'.group0
  obtain ⟨groupBlocks, groupInodes, groupDirs⟩ := counted.group gd (holds.gdt ▸ found)
  refine ⟨?_, ?_, gd, found, groupBlocks.trans blocks.symm, groupInodes.trans inodes.symm, ?_⟩
  · rw [blocks, holds.superblock, counted.blocks]
  · rw [inodes, holds.superblock, counted.inodes]
  · rw [groupDirs, ncard_directories holds consistent]
end

/-- In every state reached the counts are right, and a call that ends in
    `flush_metadata` leaves an image that opens to what is in memory. -/
theorem reached_accurate {config : Config} {fs : Filesystem} (small : Small config)
    (reached : Reached config Admissible fs) : Accurate config fs ∧
      ∀ request answer fs', Admissible fs request → Flushes fs request → (execute request).run fs = .ok answer fs' →
        open_image fs'.reader = .ok fs' := by
  obtain ⟨g, whole, v, N, holds, consistent, counted⟩ := reached_counted small reached
  refine ⟨accurate_of_counted whole holds consistent counted, fun request answer fs' admissible flushes ran => ?_⟩
  have ended := execute_ends holds consistent admissible
  rw [ran] at ended
  cases ended with
  | done carried tight written => exact reopen_ok whole carried.holds (carried.counted counted) (written flushes)
/-- The counts are right after a call that fails too, and the image of the
    directory opens to what is in memory. -/
theorem directory_accurate : ∃ fs fs',
    (execute (.mkdir [SLASH, 97])).run (fresh Config.default defaultLayout) = .ok (some 11) fs ∧
    (execute (.create_file [SLASH, 98] (zeros 65537))).run fs = .err (.NoSpace "blocks") fs' ∧ fs' ≠ fs ∧
    open_image fs.reader = .ok fs ∧ Accurate Config.default fs ∧ Accurate Config.default fs' := by
  obtain ⟨fs, fs', made, reachedOk, -, failed, differs, reached⟩ := lost_file
  have opens := (reached_accurate default_small default_opened.reached).2 (.mkdir [SLASH, 97]) (some 11) fs trivial trivial made
  exact ⟨fs, fs', made, failed, differs, opens, (reached_accurate default_small reachedOk.reached).1,
    (reached_accurate default_small reached).1⟩

end Justext4.Invariants
