import Mathlib.Data.List.Pairwise
import Mathlib.Data.List.TakeWhile
import Justext4.Images
import Justext4.Decoders

/-!
The map that an extent tree stands for. The extents below a node are collected
over all its subtrees; in a tree whose indices are sorted and bound their
subtrees the descent of `resolve_logical_block` ends at the leaf of the one
extent that covers the block. The bound on the descent is its six steps, which
five internal levels and a leaf use up and six internal nodes exceed.
-/
namespace Justext4.ExtentMap
open Justext4 Justext4.Fallible Justext4.Fields Justext4.Filesystem Justext4.Volumes Bytes
open Justext4.Extent (Extent ExtentHeader ExtentIndex ExtentNode ExtentDecodeError decode_extent_node combine48 entry_bytes)
open Justext4.Superblock (Superblock)
open Justext4.GroupDescriptor (GroupDescriptor)
open Justext4.Inode (Inode INODE_FLAG_EXTENTS)
open Justext4.Images
open Justext4.Decoders

/-! ### Keys in order -/

section
variable {α : Type} {key : α → Nat} {xs before after before' after' : List α} {x y : α} {l : Nat}

/-- Where the keys increase, a key past the bound has only such keys after it. -/
theorem past_of_head (sorted : after.Pairwise fun a b => key a < key b) (head : ∀ next ∈ after.head?, l < key next) :
    ∀ z ∈ after, l < key z := by
  cases after with
  | nil => simp
  | cons next rest =>
    have first := head next rfl
    intro z member
    rcases List.mem_cons.mp member with rfl | later
    · exact first
    · exact Nat.lt_trans first ((List.pairwise_cons.mp sorted).1 z later)
/-- Only one of the elements in order is at or below the bound with the next one past it. -/
theorem bracket_unique (sorted : xs.Pairwise fun a b => key a < key b)
    (split : xs = before ++ x :: after) (low : key x ≤ l) (high : ∀ next ∈ after.head?, l < key next)
    (split' : xs = before' ++ y :: after') (low' : key y ≤ l) (high' : ∀ next ∈ after'.head?, l < key next) : x = y := by
  have order := split ▸ sorted
  have order' := split' ▸ sorted
  rw [List.pairwise_append, List.pairwise_cons] at order order'
  have member : y ∈ before ++ x :: after := by
    rw [← split, split']
    simp
  have member' : x ∈ before' ++ y :: after' := by
    rw [← split', split]
    simp
  rcases List.mem_append.mp member with earlier | here
  · have above : key y < key x := order.2.2 y earlier x (List.mem_cons_self ..)
    rcases List.mem_append.mp member' with earlier' | here'
    · have below := order'.2.2 x earlier' y (List.mem_cons_self ..)
      omega
    rcases List.mem_cons.mp here' with same | later'
    · exact same
    · have past := past_of_head order'.2.1.2 high' x later'
      omega
  rcases List.mem_cons.mp here with same | later
  · exact same.symm
  · have past := past_of_head order.2.1.2 high y later
    omega
end

theorem collect_mem {ε α : Type} {f : Nat → Res ε α} {i n : Nat} {as : List α} (collected : collect f i n = .ok as) :
    ∀ a ∈ as, ∃ j, f j = .ok a := by
  induction n generalizing i as with
  | zero =>
    cases collected
    simp
  | succ n ih =>
    rw [collect] at collected
    obtain ⟨first, here, collected⟩ := res_bind_eq_ok.mp collected
    obtain ⟨rest, later, collected⟩ := res_bind_eq_ok.mp collected
    cases collected
    intro a member
    rcases List.mem_cons.mp member with rfl | deeper
    · exact ⟨i, here⟩
    · exact ih later a deeper

/-! ### What a decoded node holds -/

theorem combine48_lt (hi : UInt16) (lo : UInt32) : (combine48 hi lo).toNat < 281474976710656 := by
  have high := hi.toNat_lt
  have low := lo.toNat_lt
  rw [combine48, UInt64.toNat_ofNat']
  omega

/-- Physical addresses have 48 bits. -/
theorem decoded_extent {buf : Bytes} {ext : Extent} (decoded : Extent.Extent.decode buf = .ok ext) :
    ext.physical_block.toNat < 281474976710656 := by
  rw [Extent.Extent.decode] at decoded
  obtain ⟨-, -, decoded⟩ := res_bind_eq_ok.mp decoded
  obtain ⟨logical, -, decoded⟩ := res_bind_eq_ok.mp decoded
  obtain ⟨raw_len, -, decoded⟩ := res_bind_eq_ok.mp decoded
  obtain ⟨hi, -, decoded⟩ := res_bind_eq_ok.mp decoded
  obtain ⟨lo, -, decoded⟩ := res_bind_eq_ok.mp decoded
  cases decoded
  exact combine48_lt hi lo
theorem decoded_index {buf : Bytes} {idx : ExtentIndex} (decoded : Extent.ExtentIndex.decode buf = .ok idx) :
    idx.leaf_block.toNat < 281474976710656 := by
  rw [Extent.ExtentIndex.decode] at decoded
  obtain ⟨-, -, decoded⟩ := res_bind_eq_ok.mp decoded
  obtain ⟨lo, -, decoded⟩ := res_bind_eq_ok.mp decoded
  obtain ⟨hi, -, decoded⟩ := res_bind_eq_ok.mp decoded
  obtain ⟨logical, -, decoded⟩ := res_bind_eq_ok.mp decoded
  cases decoded
  exact combine48_lt hi lo

theorem decoded_leaf {buf : Bytes} {header : ExtentHeader} {extents : List Extent}
    (decoded : decode_extent_node buf = .ok (.Leaf header extents)) :
    ∀ ext ∈ extents, ext.physical_block.toNat < 281474976710656 := by
  rw [decode_extent_node] at decoded
  obtain ⟨header', -, decoded⟩ := res_bind_eq_ok.mp decoded
  obtain ⟨-, -, decoded⟩ := res_bind_eq_ok.mp decoded
  split at decoded
  · obtain ⟨extents', collected, decoded⟩ := res_bind_eq_ok.mp decoded
    cases decoded
    intro ext member
    obtain ⟨i, here⟩ := collect_mem collected ext member
    obtain ⟨entry, -, here⟩ := res_bind_eq_ok.mp here
    exact decoded_extent here
  · obtain ⟨indices, -, decoded⟩ := res_bind_eq_ok.mp decoded
    cases decoded
theorem decoded_internal {buf : Bytes} {header : ExtentHeader} {indices : List ExtentIndex}
    (decoded : decode_extent_node buf = .ok (.Internal header indices)) :
    ∀ idx ∈ indices, idx.leaf_block.toNat < 281474976710656 := by
  rw [decode_extent_node] at decoded
  obtain ⟨header', -, decoded⟩ := res_bind_eq_ok.mp decoded
  obtain ⟨-, -, decoded⟩ := res_bind_eq_ok.mp decoded
  split at decoded
  · obtain ⟨extents, -, decoded⟩ := res_bind_eq_ok.mp decoded
    cases decoded
  · obtain ⟨indices', collected, decoded⟩ := res_bind_eq_ok.mp decoded
    cases decoded
    intro idx member
    obtain ⟨i, here⟩ := collect_mem collected idx member
    obtain ⟨entry, -, here⟩ := res_bind_eq_ok.mp here
    exact decoded_index here

/-! ### Trees -/

/-- The logical block lies in the range of the extent. -/
def Covers (ext : Extent) (logical : Nat) : Prop :=
  ext.logical_block.toNat ≤ logical ∧ logical < ext.logical_block.toNat + ext.len.toNat
instance (ext : Extent) (logical : Nat) : Decidable (Covers ext logical) := inferInstanceAs (Decidable (_ ∧ _))
/-- Where an extent maps a logical block that it covers. -/
def mapped (ext : Extent) (logical : Nat) : Option Nat :=
  if ext.uninit then none else some (ext.physical_block.toNat + (logical - ext.logical_block.toNat))

/-- The node that an index points to. -/
def child_node (fs : Filesystem) (idx : ExtentIndex) : Res Ext4Error Bytes := do
  let leaf_offset ← in_u64 (idx.leaf_block.toNat * fs.superblock.block_size.toNat)
  read_at fs.reader leaf_offset fs.superblock.block_size.toNat

/-- An extent of a leaf below the node. -/
inductive Below (fs : Filesystem) : Bytes → Extent → Prop
  | leaf {node_buf : Bytes} {header : ExtentHeader} {extents : List Extent} {ext : Extent}
      (decoded : decode_extent_node node_buf = .ok (.Leaf header extents)) (member : ext ∈ extents) : Below fs node_buf ext
  | node {node_buf child : Bytes} {header : ExtentHeader} {indices : List ExtentIndex} {idx : ExtentIndex} {ext : Extent}
      (decoded : decode_extent_node node_buf = .ok (.Internal header indices)) (member : idx ∈ indices)
      (read : child_node fs idx = .ok child) (below : Below fs child ext) : Below fs node_buf ext

/-- No two extents of a leaf cover one block. -/
def Disjoint (extents : List Extent) : Prop := extents.Pairwise fun a b => ∀ logical, ¬ (Covers a logical ∧ Covers b logical)
/-- What lies below an index lies at or after its block and before that of the next index. -/
def Bounded (fs : Filesystem) (indices : List ExtentIndex) : Prop :=
  ∀ before idx after child ext logical, indices = before ++ idx :: after → child_node fs idx = .ok child →
    Below fs child ext → Covers ext logical →
      idx.logical_block.toNat ≤ logical ∧ ∀ next ∈ after.head?, logical < next.logical_block.toNat
/-- The logical blocks of the indices of a node increase. -/
def Sorted (indices : List ExtentIndex) : Prop :=
  indices.Pairwise fun a b => a.logical_block.toNat < b.logical_block.toNat

/-- A well-formed tree with at most this many internal levels above its leaves. -/
def Tree (fs : Filesystem) : Nat → Bytes → Prop
  | 0, node_buf => ∃ header extents, decode_extent_node node_buf = .ok (.Leaf header extents) ∧ Disjoint extents
  | levels + 1, node_buf =>
    (∃ header extents, decode_extent_node node_buf = .ok (.Leaf header extents) ∧ Disjoint extents) ∨
    ∃ header indices, decode_extent_node node_buf = .ok (.Internal header indices) ∧ Sorted indices ∧
      Bounded fs indices ∧ ∀ idx ∈ indices, ∃ child, child_node fs idx = .ok child ∧ Tree fs levels child

section
variable {fs : Filesystem} {node_buf : Bytes} {header : ExtentHeader} {extents : List Extent}
  {indices : List ExtentIndex} {logical steps : Nat}

theorem below_leaf (decoded : decode_extent_node node_buf = .ok (.Leaf header extents)) {ext : Extent} :
    Below fs node_buf ext ↔ ext ∈ extents := by
  constructor
  · intro below
    cases below with
    | leaf decoded' member =>
      rw [decoded] at decoded'
      cases decoded'
      exact member
    | node decoded' =>
      rw [decoded] at decoded'
      cases decoded'
  · exact .leaf decoded
theorem below_node (decoded : decode_extent_node node_buf = .ok (.Internal header indices)) {ext : Extent} :
    Below fs node_buf ext ↔ ∃ idx ∈ indices, ∃ child, child_node fs idx = .ok child ∧ Below fs child ext := by
  constructor
  · intro below
    cases below with
    | leaf decoded' =>
      rw [decoded] at decoded'
      cases decoded'
    | node decoded' member read below =>
      rw [decoded] at decoded'
      cases decoded'
      exact ⟨_, member, _, read, below⟩
  · rintro ⟨idx, member, child, read, below⟩
    exact .node decoded member read below

/-! ### The steps of the descent -/

theorem find_extent_some {ext : Extent} (found : find_extent extents logical = some ext) :
    ext ∈ extents ∧ Covers ext logical := by
  refine ⟨List.mem_of_find?_eq_some found, ?_⟩
  simpa [Covers] using List.find?_some found
theorem find_extent_none (missed : find_extent extents logical = none) : ∀ ext ∈ extents, ¬ Covers ext logical := by
  intro ext member
  simpa [Covers] using List.find?_eq_none.mp missed ext member
/-- Of the extents of a leaf at most one covers a block. -/
theorem disjoint_unique (disjoint : Disjoint extents) {a b : Extent} (left : a ∈ extents) (right : b ∈ extents)
    (covers : Covers a logical) (covers' : Covers b logical) : a = b := by
  by_contra different
  have symmetric : Std.Symm fun a b : Extent => ∀ logical, ¬ (Covers a logical ∧ Covers b logical) :=
    ⟨fun a b apart logical both => apart logical both.symm⟩
  exact disjoint.forall left right different logical ⟨covers, covers'⟩

theorem choose_index_some {idx : ExtentIndex} (chosen : choose_index indices logical = some idx) :
    ∃ before after, indices = before ++ idx :: after ∧ idx.logical_block.toNat ≤ logical ∧
      ∀ next ∈ after.head?, logical < next.logical_block.toNat := by
  obtain ⟨before, last⟩ := List.getLast?_eq_some_iff.mp chosen
  refine ⟨before, indices.dropWhile fun idx => idx.logical_block.toNat ≤ logical, ?_, ?_, ?_⟩
  · have split := List.takeWhile_append_dropWhile (p := fun idx : ExtentIndex => idx.logical_block.toNat ≤ logical)
      (l := indices)
    rw [last] at split
    simpa using split.symm
  · have member : idx ∈ indices.takeWhile fun idx => idx.logical_block.toNat ≤ logical := by simp [last]
    simpa using List.mem_takeWhile_imp member
  · intro next head
    have stop := List.head?_dropWhile_not (fun idx : ExtentIndex => idx.logical_block.toNat ≤ logical) indices
    rw [Option.mem_def.mp head] at stop
    simpa using stop
theorem choose_index_none (missed : choose_index indices logical = none) :
    ∀ first ∈ indices.head?, logical < first.logical_block.toNat := by
  have empty := List.getLast?_eq_none_iff.mp missed
  intro first head
  cases indices with
  | nil => cases head
  | cons idx rest =>
    cases head
    by_contra low
    rw [List.takeWhile_cons_of_pos (by simpa using low)] at empty
    cases empty
theorem choose_index_low {first : ExtentIndex} (head : indices.head? = some first)
    (low : first.logical_block.toNat ≤ logical) : ∃ idx ∈ indices, choose_index indices logical = some idx := by
  cases chosen : choose_index indices logical with
  | none =>
    have high := choose_index_none chosen first head
    omega
  | some idx =>
    obtain ⟨before, after, split, -⟩ := choose_index_some chosen
    exact ⟨idx, by simp [split], rfl⟩

theorem resolve_leaf (decoded : decode_extent_node node_buf = .ok (.Leaf header extents)) :
    resolve_steps fs logical (steps + 1) node_buf =
      .ok ((find_extent extents logical).bind fun ext => mapped ext logical) := by
  rw [resolve_steps, decoded, liftErr_ok, res_bind_ok]
  dsimp only
  cases found : find_extent extents logical with
  | none => rfl
  | some ext =>
    obtain ⟨member, low, high⟩ := find_extent_some found
    have address := decoded_leaf decoded ext member
    have length := ext.len.toNat_lt
    dsimp only
    rw [Option.bind_some, mapped]
    split
    · rfl
    · rw [in_u64_ok (by omega), res_bind_ok]
theorem resolve_internal (decoded : decode_extent_node node_buf = .ok (.Internal header indices)) :
    resolve_steps fs logical (steps + 1) node_buf =
      match choose_index indices logical with
      | none => .ok none
      | some idx => child_node fs idx >>= resolve_steps fs logical steps := by
  rw [resolve_steps, decoded, liftErr_ok, res_bind_ok]
  dsimp only
  cases choose_index indices logical with
  | none => rfl
  | some idx =>
    dsimp only
    rw [child_node]
    cases in_u64 (idx.leaf_block.toNat * fs.superblock.block_size.toNat) <;> rfl

/-- A child is at most 48 bits of blocks away, so its offset has 64 bits. -/
theorem child_noPanic (bounded : fs.superblock.block_size.toNat ≤ 65536)
    (decoded : decode_extent_node node_buf = .ok (.Internal header indices)) {idx : ExtentIndex} (member : idx ∈ indices) :
    NoPanic (child_node fs idx) := by
  have address := decoded_internal decoded idx member
  have product : idx.leaf_block.toNat * fs.superblock.block_size.toNat ≤ 281474976710655 * 65536 :=
    Nat.mul_le_mul (by omega) bounded
  rw [child_node, in_u64_ok (by omega), res_bind_ok]
  exact noPanic_read_at _ _ _
theorem resolve_steps_noPanic (bounded : fs.superblock.block_size.toNat ≤ 65536) (logical steps : Nat) (node_buf : Bytes) :
    NoPanic (resolve_steps fs logical steps node_buf) := by
  induction steps generalizing node_buf with
  | zero => exact noPanic_err _
  | succ steps ih =>
    cases decoded : decode_extent_node node_buf with
    | error fault =>
      rw [resolve_steps, decoded]
      cases fault with
      | err e => exact noPanic_err _
      | panic => exact absurd decoded (node_noPanic node_buf)
    | ok node =>
      cases node with
      | Leaf header extents =>
        rw [resolve_leaf decoded]
        exact noPanic_ok _
      | Internal header indices =>
        rw [resolve_internal decoded]
        cases chosen : choose_index indices logical with
        | none => exact noPanic_ok _
        | some idx =>
          obtain ⟨before, after, split, -⟩ := choose_index_some chosen
          exact noPanic_bind (child_noPanic bounded decoded (by simp [split])) fun child _ => ih child
theorem resolve_noPanic (bounded : fs.superblock.block_size.toNat ≤ 65536) (inode : Inode) (logical : Nat) :
    NoPanic (resolve_logical_block fs inode logical) :=
  noPanic_bind (noPanic_ensure _ _) fun _ _ => resolve_steps_noPanic bounded logical _ _

/-! ### The descent in a well-formed tree -/

/-- What the descent gives is what the extents below the node say. -/
def Resolves (fs : Filesystem) (logical : Nat) (node_buf : Bytes) (result : Res Ext4Error (Option Nat)) : Prop :=
  (∀ ext, Below fs node_buf ext → Covers ext logical → result = .ok (mapped ext logical)) ∧
  ((∀ ext, Below fs node_buf ext → ¬ Covers ext logical) → result = .ok none)

theorem resolves_leaf (decoded : decode_extent_node node_buf = .ok (.Leaf header extents)) (disjoint : Disjoint extents) :
    Resolves fs logical node_buf (resolve_steps fs logical (steps + 1) node_buf) := by
  rw [resolve_leaf decoded]
  constructor
  · intro ext below covers
    have member := (below_leaf decoded).mp below
    cases found : find_extent extents logical with
    | none => exact absurd covers (find_extent_none found ext member)
    | some ext' =>
      obtain ⟨member', covers'⟩ := find_extent_some found
      rw [disjoint_unique disjoint member member' covers covers', Option.bind_some]
  · intro none
    cases found : find_extent extents logical with
    | none => rfl
    | some ext =>
      obtain ⟨member, covers⟩ := find_extent_some found
      exact absurd covers (none ext ((below_leaf decoded).mpr member))

/-- The chosen index is the one whose subtree can cover the block. -/
theorem resolves_internal (decoded : decode_extent_node node_buf = .ok (.Internal header indices))
    (sorted : Sorted indices) (bounded : Bounded fs indices)
    (each : ∀ idx ∈ indices, ∃ child, child_node fs idx = .ok child ∧
      Resolves fs logical child (resolve_steps fs logical steps child)) :
    Resolves fs logical node_buf (resolve_steps fs logical (steps + 1) node_buf) := by
  rw [resolve_internal decoded]
  cases chosen : choose_index indices logical with
  | none =>
    have past := past_of_head sorted (choose_index_none chosen)
    refine ⟨?_, fun _ => rfl⟩
    intro ext below covers
    obtain ⟨idx, member, child, read, below⟩ := (below_node decoded).mp below
    obtain ⟨before, after, split⟩ := List.append_of_mem member
    have low := (bounded before idx after child ext logical split read below covers).1
    have high := past idx member
    omega
  | some idx =>
    obtain ⟨before, after, split, low, high⟩ := choose_index_some chosen
    obtain ⟨child, read, covered, uncovered⟩ := each idx (by simp [split])
    dsimp only
    rw [read, res_bind_ok]
    constructor
    · intro ext below covers
      obtain ⟨idx', member, child', read', below⟩ := (below_node decoded).mp below
      obtain ⟨before', after', split'⟩ := List.append_of_mem member
      obtain ⟨low', high'⟩ := bounded before' idx' after' child' ext logical split' read' below covers
      have same : idx = idx' := bracket_unique sorted split low high split' low' high'
      subst same
      rw [read] at read'
      cases read'
      exact covered ext below covers
    · intro none
      exact uncovered fun ext below => none ext (.node decoded (by simp [split]) read below)

/-- With more steps than internal levels the descent computes the map. -/
theorem resolves_tree {levels : Nat} (tree : Tree fs levels node_buf) (enough : levels < steps) :
    Resolves fs logical node_buf (resolve_steps fs logical steps node_buf) := by
  obtain ⟨steps, rfl⟩ : ∃ n, steps = n + 1 := ⟨steps - 1, by omega⟩
  induction levels generalizing node_buf steps with
  | zero =>
    obtain ⟨header, extents, decoded, disjoint⟩ := tree
    exact resolves_leaf decoded disjoint
  | succ levels ih =>
    rcases tree with ⟨header, extents, decoded, disjoint⟩ | ⟨header, indices, decoded, sorted, bounded, children⟩
    · exact resolves_leaf decoded disjoint
    · refine resolves_internal decoded sorted bounded fun idx member => ?_
      obtain ⟨child, read, subtree⟩ := children idx member
      obtain ⟨steps, rfl⟩ : ∃ n, steps = n + 1 := ⟨steps - 1, by omega⟩
      exact ⟨child, read, ih subtree steps (by omega)⟩

/-! ### The bound on the descent -/

/-- The descent towards a block meets internal nodes with these indices, one after another. -/
def Meets (fs : Filesystem) (logical : Nat) : List (List ExtentIndex) → Bytes → Prop
  | [], _ => True
  | indices :: met, node_buf => ∃ header, decode_extent_node node_buf = .ok (.Internal header indices) ∧
    (met = [] ∨ ∃ idx child, choose_index indices logical = some idx ∧ child_node fs idx = .ok child ∧
      Meets fs logical met child)

/-- As many internal nodes as there are steps end the descent with the error. -/
theorem resolve_exceeds {met : List (List ExtentIndex)} (meets : Meets fs logical met node_buf)
    (low : ∀ indices ∈ met, ∃ first, indices.head? = some first ∧ first.logical_block.toNat ≤ logical)
    (inside : ∀ indices ∈ met, ∀ idx ∈ indices, ∃ child, child_node fs idx = .ok child) :
    resolve_steps fs logical met.length node_buf = .error (.err (.MaxExtentDepthExceeded MAX_EXTENT_DEPTH)) := by
  induction met generalizing node_buf with
  | nil => rfl
  | cons indices met ih =>
    obtain ⟨header, decoded, next⟩ := meets
    obtain ⟨first, head, below⟩ := low indices (List.mem_cons_self ..)
    obtain ⟨idx, member, chosen⟩ := choose_index_low head below
    obtain ⟨child, read⟩ := inside indices (List.mem_cons_self ..) idx member
    have later : Meets fs logical met child := by
      rcases next with rfl | ⟨idx', child', chosen', read', meets⟩
      · trivial
      · rw [chosen] at chosen'
        cases chosen'
        rw [read] at read'
        cases read'
        exact meets
    rw [List.length_cons, resolve_internal decoded, chosen]
    dsimp only
    rw [read, res_bind_ok]
    exact ih later (fun indices member => low indices (List.mem_cons_of_mem _ member))
      (fun indices member => inside indices (List.mem_cons_of_mem _ member))
end

theorem resolve_descends {fs : Filesystem} {inode : Inode} {logical : Nat} (based : Inode.uses_extents inode = true) :
    resolve_logical_block fs inode logical = resolve_steps fs logical 6 inode.block.bytes := by
  rw [resolve_logical_block, based]
  rfl

/-- `resolve_logical_block` on a well-formed tree of five internal levels, and
    on any tree whose descent meets six internal nodes. -/
theorem resolve_extent_map {fs : Filesystem} {inode : Inode} {logical : Nat} (based : Inode.uses_extents inode = true) :
    (Tree fs 5 inode.block.bytes →
      (∀ ext, Below fs inode.block.bytes ext → Covers ext logical →
        resolve_logical_block fs inode logical =
          .ok (if ext.uninit then none else some (ext.physical_block.toNat + (logical - ext.logical_block.toNat)))) ∧
      ((∀ ext, Below fs inode.block.bytes ext → ¬ Covers ext logical) →
        resolve_logical_block fs inode logical = .ok none)) ∧
    ∀ met, Meets fs logical met inode.block.bytes → met.length = 6 →
      (∀ indices ∈ met, ∃ first, indices.head? = some first ∧ first.logical_block.toNat ≤ logical) →
      (∀ indices ∈ met, ∀ idx ∈ indices, ∃ child, child_node fs idx = .ok child) →
      resolve_logical_block fs inode logical = .error (.err (.MaxExtentDepthExceeded MAX_EXTENT_DEPTH)) := by
  rw [resolve_descends based]
  constructor
  · intro tree
    exact resolves_tree tree (by omega)
  · intro met meets six low inside
    rw [← six]
    exact resolve_exceeds meets low inside

/-! ### A tree of one level, and an unsorted node at the end of the descent -/

/-- An inode of one block with this `i_block`. -/
def mapping (block : FixedBytes 60) : Inode where
  mode := 0o100644
  uid := 0
  gid := 0
  size := 1024
  atime := 0
  ctime := 0
  mtime := 0
  dtime := 0
  links_count := 1
  blocks_lo := 2
  blocks_hi := 0
  flags := INODE_FLAG_EXTENTS
  block
  generation := 0
  file_acl_lo := 0
  file_acl_hi := 0

/-- A node with one index, for logical block 0, that points to a block. -/
def pointing (block : UInt8) : List UInt8 :=
  [0x0A, 0xF3, 1, 0, 4, 0, 1, 0, 0, 0, 0, 0] ++ [0, 0, 0, 0, block, 0, 0, 0, 0, 0, 0, 0]
/-- A node with an index for logical block 10 before one for logical block 0. -/
def unsorted : List UInt8 :=
  [0x0A, 0xF3, 2, 0, 4, 0, 1, 0, 0, 0, 0, 0] ++ [10, 0, 0, 0, 3, 0, 0, 0, 0, 0, 0, 0] ++ [0, 0, 0, 0, 3, 0, 0, 0, 0, 0, 0, 0]
/-- The bytes of a node as a block. -/
def nodeBlock (bytes : List UInt8) : Bytes := (ofList bytes).slice 0 1024
/-- Five nodes in blocks 3 to 7, each of the first four pointing to the next. -/
def chain : List (Nat × Bytes) :=
  [(3072, nodeBlock (pointing 4)), (4096, nodeBlock (pointing 5)), (5120, nodeBlock (pointing 6)),
    (6144, nodeBlock (pointing 7)), (7168, nodeBlock unsorted)]
def chainSuperblock : Superblock := plain 1024 16 8 1 8192 16
def chainDescriptor : GroupDescriptor := ⟨3, 4, 5, 0, 0, 0, 0, 0⟩
/-- An image of 1 KiB blocks with these nodes. -/
def nodesImage (nodes : List (Nat × Bytes)) : Bytes := assembled 8192 chainSuperblock 0 [chainDescriptor] nodes
def nodesOpen (nodes : List (Nat × Bytes)) : Filesystem := ⟨nodesImage nodes, chainSuperblock, [chainDescriptor]⟩
def chainInode : Inode := mapping (.ofSlice (ofList (pointing 3)) 0 60)
/-- The indices of the six nodes. -/
def chainMet : List (List ExtentIndex) :=
  [[⟨0, 3⟩], [⟨0, 4⟩], [⟨0, 5⟩], [⟨0, 6⟩], [⟨0, 7⟩], [⟨10, 3⟩, ⟨0, 3⟩]]

theorem nodes_assemble {nodes : List (Nat × Bytes)}
    (inside : (spans chainSuperblock [chainDescriptor] nodes).all (fun s => s.1 + s.2 ≤ 8192) = true)
    (apart : (spans chainSuperblock [chainDescriptor] nodes).Pairwise fun s t => spansApart s t = true) :
    Assembles 8192 chainSuperblock 0 [chainDescriptor] nodes where
  wide := by decide
  logged := rfl
  dynamic := by decide
  sized := by decide
  blocks := by decide
  free := by decide
  blockGroup := by decide
  inodeGroup := by decide
  groups := by decide
  narrow := by decide
  inside
  apart
theorem chain_assembles : Assembles 8192 chainSuperblock 0 [chainDescriptor] chain :=
  nodes_assemble (by decide) (by decide)

theorem read_placed {nodes : List (Nat × Bytes)} (assembles : Assembles 8192 chainSuperblock 0 [chainDescriptor] nodes)
    {idx : ExtentIndex} {src : Bytes} (size : src.size = 1024) (member : (idx.leaf_block.toNat * 1024, src) ∈ nodes) :
    child_node (nodesOpen nodes) idx = .ok src := by
  have inside := part_inside assembles (List.mem_cons_of_mem _ (List.mem_cons_of_mem _ member))
  have block_size : chainSuperblock.block_size.toNat = 1024 := rfl
  rw [child_node, nodesOpen, block_size, in_u64_ok (by omega), res_bind_ok, nodesImage, read_part assembles size member]

theorem decode_first : decode_extent_node chainInode.block.bytes = .ok (.Internal ⟨1, 4, 1, 0⟩ [⟨0, 3⟩]) := by decide +kernel
theorem decode_pointing : ∀ block ∈ [3, 4, 5, 6, 7],
    decode_extent_node (nodeBlock (pointing block)) = .ok (.Internal ⟨1, 4, 1, 0⟩ [⟨0, .ofNat block.toNat⟩]) := by
  decide +kernel
theorem decode_unsorted : decode_extent_node (nodeBlock unsorted) = .ok (.Internal ⟨2, 4, 1, 0⟩ [⟨10, 3⟩, ⟨0, 3⟩]) := by
  decide +kernel

/-- Six internal nodes in a row, each with an index at or below block 5 and
    all of them inside the image: the last one is not sorted, and the descent
    ends there with no block. -/
theorem unsorted_ends : ∃ fs, open_image (nodesImage chain) = .ok fs ∧ Inode.uses_extents chainInode = true ∧
    Meets fs 5 chainMet chainInode.block.bytes ∧ chainMet.length = 6 ∧
    (∀ indices ∈ chainMet, ∃ idx ∈ indices, idx.logical_block.toNat ≤ 5) ∧
    (∀ indices ∈ chainMet, ∀ idx ∈ indices, ∃ child, child_node fs idx = .ok child) ∧
    resolve_logical_block fs chainInode 5 = .ok none := by
  let fs := nodesOpen chain
  have read3 : child_node fs ⟨0, 3⟩ = .ok (nodeBlock (pointing 4)) := read_placed chain_assembles rfl (by simp [chain])
  have read3' : child_node fs ⟨10, 3⟩ = .ok (nodeBlock (pointing 4)) := read_placed chain_assembles rfl (by simp [chain])
  have read4 : child_node fs ⟨0, 4⟩ = .ok (nodeBlock (pointing 5)) := read_placed chain_assembles rfl (by simp [chain])
  have read5 : child_node fs ⟨0, 5⟩ = .ok (nodeBlock (pointing 6)) := read_placed chain_assembles rfl (by simp [chain])
  have read6 : child_node fs ⟨0, 6⟩ = .ok (nodeBlock (pointing 7)) := read_placed chain_assembles rfl (by simp [chain])
  have read7 : child_node fs ⟨0, 7⟩ = .ok (nodeBlock unsorted) := read_placed chain_assembles rfl (by simp [chain])
  have node4 : decode_extent_node (nodeBlock (pointing 4)) = .ok (.Internal ⟨1, 4, 1, 0⟩ [⟨0, 4⟩]) :=
    decode_pointing 4 (by decide)
  have node5 : decode_extent_node (nodeBlock (pointing 5)) = .ok (.Internal ⟨1, 4, 1, 0⟩ [⟨0, 5⟩]) :=
    decode_pointing 5 (by decide)
  have node6 : decode_extent_node (nodeBlock (pointing 6)) = .ok (.Internal ⟨1, 4, 1, 0⟩ [⟨0, 6⟩]) :=
    decode_pointing 6 (by decide)
  have node7 : decode_extent_node (nodeBlock (pointing 7)) = .ok (.Internal ⟨1, 4, 1, 0⟩ [⟨0, 7⟩]) :=
    decode_pointing 7 (by decide)
  have only : ∀ block, choose_index [⟨0, block⟩] 5 = some ⟨0, block⟩ := fun _ => rfl
  have none : choose_index [⟨10, 3⟩, ⟨0, 3⟩] 5 = none := rfl
  have based : Inode.uses_extents chainInode = true := by decide
  refine ⟨fs, open_assembled chain_assembles, based, ?_, rfl, by decide, ?_, ?_⟩
  · refine ⟨_, decode_first, .inr ⟨_, _, only _, read3, ?_⟩⟩
    refine ⟨_, node4, .inr ⟨_, _, only _, read4, ?_⟩⟩
    refine ⟨_, node5, .inr ⟨_, _, only _, read5, ?_⟩⟩
    refine ⟨_, node6, .inr ⟨_, _, only _, read6, ?_⟩⟩
    refine ⟨_, node7, .inr ⟨_, _, only _, read7, ?_⟩⟩
    exact ⟨_, decode_unsorted, .inl rfl⟩
  · simp only [chainMet, List.forall_mem_cons, List.not_mem_nil, false_imp_iff, implies_true, and_true]
    exact ⟨⟨_, read3⟩, ⟨_, read4⟩, ⟨_, read5⟩, ⟨_, read6⟩, ⟨_, read7⟩, ⟨_, read3'⟩, ⟨_, read3⟩⟩
  · rw [resolve_descends based, resolve_internal decode_first, only]
    dsimp only
    rw [read3, res_bind_ok, resolve_internal node4, only]
    dsimp only
    rw [read4, res_bind_ok, resolve_internal node5, only]
    dsimp only
    rw [read5, res_bind_ok, resolve_internal node6, only]
    dsimp only
    rw [read6, res_bind_ok, resolve_internal node7, only]
    dsimp only
    rw [read7, res_bind_ok, resolve_internal decode_unsorted, none]

/-- A node with an index for logical block 0 and one for logical block 10. -/
def branching : List UInt8 :=
  [0x0A, 0xF3, 2, 0, 4, 0, 2, 0, 0, 0, 0, 0] ++ [0, 0, 0, 0, 4, 0, 0, 0, 0, 0, 0, 0] ++ [10, 0, 0, 0, 5, 0, 0, 0, 0, 0, 0, 0]
/-- A leaf of two blocks and a leaf of three that are not initialised. -/
def lowLeaf : List UInt8 := [0x0A, 0xF3, 1, 0, 4, 0, 0, 0, 0, 0, 0, 0] ++ [0, 0, 0, 0, 2, 0, 0, 0, 6, 0, 0, 0]
def highLeaf : List UInt8 := [0x0A, 0xF3, 1, 0, 4, 0, 0, 0, 0, 0, 0, 0] ++ [10, 0, 0, 0, 3, 128, 0, 0, 7, 0, 0, 0]
/-- A tree of two internal levels below the inode, and a node that points to itself. -/
def forked : List (Nat × Bytes) :=
  [(3072, nodeBlock branching), (4096, nodeBlock lowLeaf), (5120, nodeBlock highLeaf), (6144, nodeBlock (pointing 6))]
def loopInode : Inode := mapping (.ofSlice (ofList (pointing 6)) 0 60)

theorem forked_assembles : Assembles 8192 chainSuperblock 0 [chainDescriptor] forked :=
  nodes_assemble (by decide) (by decide)
theorem decode_loop : decode_extent_node loopInode.block.bytes = .ok (.Internal ⟨1, 4, 1, 0⟩ [⟨0, 6⟩]) := by decide +kernel
theorem decode_branching :
    decode_extent_node (nodeBlock branching) = .ok (.Internal ⟨2, 4, 2, 0⟩ [⟨0, 4⟩, ⟨10, 5⟩]) := by decide +kernel
theorem decode_low : decode_extent_node (nodeBlock lowLeaf) = .ok (.Leaf ⟨1, 4, 0, 0⟩ [⟨0, 2, 6, false⟩]) := by
  decide +kernel
theorem decode_high : decode_extent_node (nodeBlock highLeaf) = .ok (.Leaf ⟨1, 4, 0, 0⟩ [⟨10, 3, 7, true⟩]) := by
  decide +kernel
theorem read_branching : child_node (nodesOpen forked) ⟨0, 3⟩ = .ok (nodeBlock branching) :=
  read_placed forked_assembles rfl (by simp [forked])
theorem read_low : child_node (nodesOpen forked) ⟨0, 4⟩ = .ok (nodeBlock lowLeaf) :=
  read_placed forked_assembles rfl (by simp [forked])
theorem read_high : child_node (nodesOpen forked) ⟨10, 5⟩ = .ok (nodeBlock highLeaf) :=
  read_placed forked_assembles rfl (by simp [forked])

theorem below_branching {ext : Extent} :
    Below (nodesOpen forked) (nodeBlock branching) ext ↔ ext = ⟨0, 2, 6, false⟩ ∨ ext = ⟨10, 3, 7, true⟩ := by
  rw [below_node decode_branching]
  simp [read_low, read_high, below_leaf decode_low, below_leaf decode_high]
theorem below_forked {ext : Extent} : Below (nodesOpen forked) chainInode.block.bytes ext ↔
    ext = ⟨0, 2, 6, false⟩ ∨ ext = ⟨10, 3, 7, true⟩ := by
  rw [below_node decode_first]
  simp [read_branching, below_branching]

theorem tree_forked : Tree (nodesOpen forked) 5 chainInode.block.bytes := by
  refine .inr ⟨_, _, decode_first, List.pairwise_singleton .., ?_, ?_⟩
  · intro before idx after child ext logical split read below covers
    obtain ⟨rfl, rfl, rfl⟩ : before = [] ∧ idx = ⟨0, 3⟩ ∧ after = [] := by
      cases before <;> simp_all
    simp
  · simp only [List.forall_mem_singleton]
    refine ⟨_, read_branching, .inr ⟨_, _, decode_branching, by simp [Sorted], ?_, ?_⟩⟩
    · intro before idx after child ext logical split read below covers
      match before, split with
      | [], split =>
        cases split
        cases read_low.symm.trans read
        obtain rfl := List.mem_singleton.mp ((below_leaf decode_low).mp below)
        have last : logical < 2 := covers.2
        simp only [List.head?_cons, Option.mem_some_iff, forall_eq']
        exact ⟨Nat.zero_le _, show logical < 10 by omega⟩
      | [_], split =>
        cases split
        cases read_high.symm.trans read
        obtain rfl := List.mem_singleton.mp ((below_leaf decode_high).mp below)
        exact ⟨covers.1, by simp⟩
      | _ :: _ :: _, split => simp at split
    · simp only [List.forall_mem_cons, List.not_mem_nil, false_imp_iff, implies_true, and_true]
      exact ⟨⟨_, read_low, .inl ⟨_, _, decode_low, List.pairwise_singleton ..⟩⟩,
        _, read_high, .inl ⟨_, _, decode_high, List.pairwise_singleton ..⟩⟩

/-- Below two internal nodes a block is found, one is not initialised and one is
    in no extent; a node that points to itself uses up the descent. -/
theorem resolves_nodes : resolve_logical_block (nodesOpen forked) chainInode 1 = .ok (some 7) ∧
    resolve_logical_block (nodesOpen forked) chainInode 12 = .ok none ∧
    resolve_logical_block (nodesOpen forked) chainInode 5 = .ok none ∧
    resolve_logical_block (nodesOpen forked) loopInode 5 = .error (.err (.MaxExtentDepthExceeded 5)) := by
  have maps := fun logical => (@resolve_extent_map (nodesOpen forked) chainInode logical (by decide)).1 tree_forked
  have read : child_node (nodesOpen forked) ⟨0, 6⟩ = .ok (nodeBlock (pointing 6)) :=
    read_placed forked_assembles rfl (by simp [forked])
  have node : decode_extent_node (nodeBlock (pointing 6)) = .ok (.Internal ⟨1, 4, 1, 0⟩ [⟨0, 6⟩]) :=
    decode_pointing 6 (by decide)
  have meets : ∀ n, Meets (nodesOpen forked) 5 (List.replicate n [⟨0, 6⟩]) (nodeBlock (pointing 6)) := by
    intro n
    induction n with
    | zero => trivial
    | succ n ih => exact ⟨_, node, .inr ⟨⟨0, 6⟩, _, rfl, read, ih⟩⟩
  refine ⟨?_, ?_, ?_, ?_⟩
  · exact (maps 1).1 ⟨0, 2, 6, false⟩ (below_forked.mpr (.inl rfl)) (by simp [Covers])
  · exact (maps 12).1 ⟨10, 3, 7, true⟩ (below_forked.mpr (.inr rfl)) (by simp [Covers])
  · refine (maps 5).2 fun ext below => ?_
    rcases below_forked.mp below with rfl | rfl
    · simp [Covers]
    · simp [Covers]
  · exact (@resolve_extent_map (nodesOpen forked) loopInode 5 (by decide)).2 (List.replicate 6 [⟨0, 6⟩])
      ⟨_, decode_loop, .inr ⟨⟨0, 6⟩, _, rfl, read, meets 5⟩⟩ rfl (by decide)
      (by simpa [List.replicate] using ⟨_, read⟩)

end Justext4.ExtentMap
