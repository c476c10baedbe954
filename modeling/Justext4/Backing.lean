import Justext4.Allocation
import Justext4.Nodes
import Justext4.Runs

/-!
Volumes that back a file tree. Every node of the tree has its bit in the inode
bitmap, a slot that says what kind of node it is, and blocks of its own whose
bits are set; the block of a directory lists its entries. Taking bits, and
writing to slots and blocks that no node has, leaves the tree backed.
-/
namespace Justext4.Backing
open Justext4 Justext4.Fallible Justext4.Filesystem Justext4.Volumes Bytes
open Justext4.Inode (Inode S_IFMT S_IFDIR S_IFREG S_IFLNK INODE_FLAG_EXTENTS)
open Justext4.DirEntry (DirEntry)
open Justext4.DirBlock
open Justext4.Nodes
open Justext4.NamedTree
open Justext4.Runs (runBlock)

/-- The entries of a directory, the two dots before the others. -/
def listing (n parent : UInt32) (kids : List Kid) : List Kid := ⟨DOT, n, 2⟩ :: ⟨DOTDOT, parent, 2⟩ :: kids
/-- The number of entries that are directories. -/
def subdirs (kids : List Kid) : Nat := kids.countP (·.code == 2)
/-- The records of a block are those of a list of entries. -/
def Lists (bytes : Bytes) (kids : List Kid) : Prop := ∃ es, Tiles bytes 0 es bytes.size ∧ es.map kid = kids

/-- A record has at least eight bytes. -/
theorem Lists.length {bytes : Bytes} {kids : List Kid} (lists : Lists bytes kids) : 8 * kids.length ≤ bytes.size := by
  obtain ⟨es, tiles, rfl⟩ := lists
  rw [tiles_stop tiles, Nat.zero_add, List.length_map]
  exact width_length (tiles_formed tiles)

structure DirBacked (g : Geometry) (v : Volume) (n : UInt32) (block : Nat) (parent : UInt32) (kids : List Kid) :
    Prop where
  mode : (v.slot n).mode &&& S_IFMT = S_IFDIR
  flags : (v.slot n).flags = INODE_FLAG_EXTENTS
  size : (v.slot n).size.toNat = g.block_size
  run : (v.slot n).block = runBlock block 1
  links : (v.slot n).links_count.toNat = 2 + subdirs kids
  dtime : (v.slot n).dtime = 0
  bytes : (v.block block).size = g.block_size
  lists : Lists (v.block block) (listing n parent kids)

structure FileBacked (g : Geometry) (v : Volume) (n : UInt32) (start count : Nat) : Prop where
  mode : (v.slot n).mode &&& S_IFMT = S_IFREG
  flags : (v.slot n).flags = INODE_FLAG_EXTENTS
  size : div_ceil (v.slot n).size.toNat g.block_size = count
  run : (v.slot n).block = runBlock start count
  short : count ≤ 32768
  small : start < 281474976710656
  links : (v.slot n).links_count = 1
  dtime : (v.slot n).dtime = 0

structure LinkBacked (v : Volume) (n : UInt32) : Prop where
  mode : (v.slot n).mode &&& S_IFMT = S_IFLNK
  flags : (v.slot n).flags = 0
  size : 1 ≤ (v.slot n).size.toNat ∧ (v.slot n).size.toNat ≤ 60
  links : (v.slot n).links_count = 1
  dtime : (v.slot n).dtime = 0

def Backed (g : Geometry) (v : Volume) (n : UInt32) : Node → Prop
  | .dir block parent kids => DirBacked g v n block parent kids
  | .file start count => FileBacked g v n start count
  | .link => LinkBacked v n

structure Sound (g : Geometry) (v : Volume) (n : UInt32) (x : Node) : Prop where
  number : n = ROOT_INODE ∨ 11 ≤ n.toNat
  listed : n.toNat ≤ g.inodes
  covered : n.toNat ≤ 8 * g.block_size
  taken : v.inodeBit (n.toNat - 1) = true
  backed : Backed g v n x
  owned : ∀ b, x.Owns b → g.root ≤ b ∧ b < g.limit ∧ v.blockBit b = true

/-- The volume has every node where the node says. -/
structure Laid (g : Geometry) (v : Volume) (N : NodeMap) : Prop where
  sound : ∀ {n x}, N n = some x → Sound g v n x
  apart : ∀ {n m x y}, N n = some x → N m = some y → n ≠ m → ∀ b, x.Owns b → ¬ y.Owns b
  reserved : ∀ i < 10, v.inodeBit i = true
  metadata : ∀ b < g.root, v.blockBit b = true
  clear : ∀ n : UInt32, 1 ≤ n.toNat → n.toNat ≤ g.per_group → n.toNat ≤ 8 * g.block_size →
    v.inodeBit (n.toNat - 1) = false → (v.slot n).links_count = 0

/-- The volume backs the tree. -/
structure Consistent (g : Geometry) (v : Volume) (N : NodeMap) : Prop extends Laid g v N where
  linked : Linked N

section
variable {g : Geometry} {v v' : Volume} {N N' : NodeMap} {n : UInt32} {x : Node}

theorem low_of_number (number : n = ROOT_INODE ∨ 11 ≤ n.toNat) : 1 ≤ n.toNat := by
  rcases number with rfl | large
  · decide
  · omega
theorem Sound.low (sound : Sound g v n x) : 1 ≤ n.toNat := low_of_number sound.number

/-- What backs a node depends on its slot and on its blocks. -/
theorem Backed.congr (backed : Backed g v n x) (slot : v'.slot n = v.slot n)
    (blocks : ∀ b, x.Owns b → v'.block b = v.block b) : Backed g v' n x := by
  cases x with
  | dir block parent kids =>
    obtain ⟨mode, flags, size, run, links, dtime, bytes, lists⟩ := backed
    have same := blocks block rfl
    constructor <;> simp only [slot, same] <;> assumption
  | file start count =>
    obtain ⟨mode, flags, size, run, short, small, links, dtime⟩ := backed
    constructor <;> (try simp only [slot]) <;> assumption
  | link =>
    obtain ⟨mode, flags, size, links, dtime⟩ := backed
    constructor <;> simp only [slot] <;> assumption
theorem Sound.congr (sound : Sound g v n x) (slot : v'.slot n = v.slot n)
    (blocks : ∀ b, x.Owns b → v'.block b = v.block b ∧ v'.blockBit b = true)
    (taken : v'.inodeBit (n.toNat - 1) = true) : Sound g v' n x :=
  { sound with
    taken
    backed := sound.backed.congr slot fun b owns => (blocks b owns).1
    owned := fun b owns => ⟨(sound.owned b owns).1, (sound.owned b owns).2.1, (blocks b owns).2⟩ }

/-- Bits may be set, and slots and blocks of no node may change. -/
structure Spared (g : Geometry) (v v' : Volume) (N : NodeMap) : Prop where
  slot : ∀ m, Live N m → v'.slot m = v.slot m
  block : ∀ m y b, N m = some y → y.Owns b → v'.block b = v.block b
  inodeBit : ∀ i, v.inodeBit i = true → v'.inodeBit i = true
  blockBit : ∀ b, v.blockBit b = true → v'.blockBit b = true
  clear : ∀ m : UInt32, 1 ≤ m.toNat → m.toNat ≤ g.per_group → m.toNat ≤ 8 * g.block_size →
    v'.inodeBit (m.toNat - 1) = false → v'.slot m = v.slot m

theorem Spared.refl (g : Geometry) (v : Volume) (N : NodeMap) : Spared g v v N :=
  ⟨fun _ _ => rfl, fun _ _ _ _ _ => rfl, fun _ set => set, fun _ set => set, fun _ _ _ _ _ => rfl⟩
theorem Spared.trans {v'' : Volume} (first : Spared g v v' N) (second : Spared g v' v'' N) : Spared g v v'' N where
  slot m live := (second.slot m live).trans (first.slot m live)
  block m y b found owns := (second.block m y b found owns).trans (first.block m y b found owns)
  inodeBit i set := second.inodeBit i (first.inodeBit i set)
  blockBit b set := second.blockBit b (first.blockBit b set)
  clear m low high inside unset := by
    have before : v'.inodeBit (m.toNat - 1) = false := by
      cases set : v'.inodeBit (m.toNat - 1) with
      | false => rfl
      | true => rw [second.inodeBit _ set] at unset; cases unset
    exact (second.clear m low high inside unset).trans (first.clear m low high inside before)

/-- What spares the nodes leaves the tree backed. -/
theorem Laid.spared (laid : Laid g v N) (spared : Spared g v v' N) : Laid g v' N where
  sound found :=
    have sound := laid.sound found
    sound.congr (spared.slot _ (live_of found))
      (fun b owns => ⟨spared.block _ _ b found owns, spared.blockBit b (sound.owned b owns).2.2⟩)
      (spared.inodeBit _ sound.taken)
  apart := laid.apart
  reserved i small := spared.inodeBit i (laid.reserved i small)
  metadata b low := spared.blockBit b (laid.metadata b low)
  clear m low high inside unset := by
    rw [spared.clear m low high inside unset]
    apply laid.clear m low high inside
    cases set : v.inodeBit (m.toNat - 1) with
    | false => rfl
    | true => rw [spared.inodeBit _ set] at unset; cases unset
theorem Consistent.spared (consistent : Consistent g v N) (spared : Spared g v v' N) : Consistent g v' N :=
  ⟨consistent.toLaid.spared spared, consistent.linked⟩

theorem spared_takeInode (i : Nat) : Spared g v (v.takeInode i) N :=
  ⟨fun _ _ => rfl, fun _ _ _ _ _ => rfl, fun _ set => by simp [Volume.takeInode, set], fun _ set => set,
    fun _ _ _ _ _ => rfl⟩
theorem spared_takeBlocks (start count : Nat) : Spared g v (v.takeBlocks start count) N :=
  ⟨fun _ _ => rfl, fun _ _ _ _ _ => rfl, fun _ set => set, fun _ set => by simp [Volume.takeBlocks, set],
    fun _ _ _ _ _ => rfl⟩
theorem spared_setSlot (inode : Inode) (dead : N n = none) (taken : v.inodeBit (n.toNat - 1) = true) :
    Spared g v (v.setSlot n inode) N := by
  refine ⟨fun m live => ?_, fun _ _ _ _ _ => rfl, fun _ set => set, fun _ set => set, fun m _ _ _ unset => ?_⟩
  · have other : m ≠ n := fun same => live (same ▸ dead)
    simp [Volume.setSlot, other]
  · have other : m ≠ n := by
      rintro rfl
      have set : (v.setSlot m inode).inodeBit (m.toNat - 1) = true := taken
      rw [set] at unset
      cases unset
    simp [Volume.setSlot, other]
theorem spared_setBlocks {start count : Nat} (bytes : Bytes)
    (unowned : ∀ m y b, N m = some y → y.Owns b → ¬ (start ≤ b ∧ b < start + count)) :
    Spared g v (v.setBlocks g.block_size start count bytes) N := by
  refine ⟨fun _ _ => rfl, fun m y b found owns => ?_, fun _ set => set, fun _ set => set, fun _ _ _ _ _ => rfl⟩
  exact if_neg (unowned m y b found owns)

/-! ### The nodes and their numbers -/

theorem Consistent.root (consistent : Consistent g v N) :
    ∃ block kids, N ROOT_INODE = some (.dir block ROOT_INODE kids) := consistent.linked.root
theorem Consistent.live_number (consistent : Consistent g v N) (live : Live N n) : n = ROOT_INODE ∨ 11 ≤ n.toNat := by
  cases found : N n with
  | none => exact absurd found live
  | some x => exact (consistent.sound found).number
theorem Consistent.live_nonzero (consistent : Consistent g v N) (live : Live N n) : n ≠ 0 := by
  have low := low_of_number (consistent.live_number live)
  rintro rfl
  have zero : (0 : UInt32).toNat = 0 := rfl
  omega
/-- The parent of a directory is a directory, which names it unless it is the
    root. -/
theorem parent_dir (consistent : Consistent g v N) {block : Nat} {parent : UInt32} {kids : List Kid}
    (found : N n = some (.dir block parent kids)) :
    ∃ b q ks, N parent = some (.dir b q ks) ∧ (n = ROOT_INODE ∨ ∃ k ∈ ks, k.inode = n) := by
  have linked := consistent.linked
  obtain ⟨path, walked⟩ := linked.tree.reached (live_of found)
  cases path using List.reverseRecOn with
  | nil =>
    cases walked
    obtain ⟨_, _, root⟩ := linked.root
    rw [root] at found
    cases found
    exact ⟨_, _, _, root, .inl rfl⟩
  | append_singleton path name =>
    obtain ⟨p, -, edge⟩ := walk_snoc.mp walked
    obtain ⟨b, q, ks, source, hit⟩ := child_some edge
    obtain ⟨before, k, after, split, -, inode, -⟩ := named_some hit
    have member : k ∈ ks := by simp [split]
    obtain ⟨y, there, -, back⟩ := linked.kids source k member
    rw [inode, found] at there
    cases there
    rw [back parent rfl]
    exact ⟨b, q, ks, source, .inr ⟨k, member, inode⟩⟩
/-- A directory has too few children for its links to overflow. -/
theorem links_few (consistent : Consistent g v N) {block : Nat} {parent : UInt32} {kids : List Kid}
    (found : N n = some (.dir block parent kids)) : (v.slot n).links_count.toNat + 1 < 65536 := by
  have backed : DirBacked g v n block parent kids := (consistent.sound found).backed
  have links := backed.links
  have held := backed.lists.length
  have few : subdirs kids ≤ kids.length := List.countP_le_length
  have bounded := g.bounded
  rw [backed.bytes, listing, List.length_cons, List.length_cons] at held
  omega
theorem Consistent.parent_live (consistent : Consistent g v N) {block : Nat} {parent : UInt32} {kids : List Kid}
    (found : N n = some (.dir block parent kids)) : Live N parent := by
  obtain ⟨b, q, ks, above, -⟩ := parent_dir consistent found
  exact live_of above
end

end Justext4.Backing
