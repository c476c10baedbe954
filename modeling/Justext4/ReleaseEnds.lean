import Justext4.FailedRemoval
import Justext4.Shrinking

/-!
How the calls end that release space. Before anything is changed a removal fails
when the extents or the bitmap that it needs first are not read, and it returns
when everything is there that it goes through; a truncation gives back what is
past the cutoff and can always write what is left.
-/
namespace Justext4.ReleaseEnds
open Justext4 Justext4.Fallible Justext4.Fields Justext4.Filesystem Bytes
open Justext4.Inode (Inode)
open Justext4.Extent (Extent ExtentHeader decode_extent_node)
open Justext4.Slots (withSlot withSlot_superblock withSlot_gdt slot_of_read write_inode_run)
open Justext4.Recounting
open Justext4.Regions
open Justext4.Releasing
open Justext4.Shrinking
open Justext4.Unlinking
open Justext4.FailedRemoval

/-! ### How a removal ends -/

/-- Nothing is released: the extents are not read, or not the bitmap that is needed first. -/
def Undone (fs : Filesystem) (inode : Inode) : Prop :=
  ¬ (Inode.uses_extents inode = true → 0 < inode.size.toNat → ∃ node, decode_extent_node inode.block.bytes = .ok node) ∨
    (0 < total (freedRuns inode) ∧ Unreadable fs (·.block_bitmap)) ∨
    (total (freedRuns inode) = 0 ∧ Unreadable fs (·.inode_bitmap))
/-- All is released, and the entry is found in the first block of the directory. -/
structure Done (fs : Filesystem) (parent : Inode) (n : UInt32) (inode : Inode) (name : List UInt8) : Prop where
  data : ReleasesData fs inode
  bit : ReleasesInode fs n
  entry : ∃ buf, entry_gone fs parent n name = .ok buf

section
variable {fs fs' : Filesystem} {path name : List UInt8} {p n : UInt32} {parent inode : Inode}

theorem remove_dir_entry_ok_iff : (∃ fs', (remove_dir_entry parent n name).run fs = .ok () fs') ↔
    ∃ buf, entry_gone fs parent n name = .ok buf := by
  unfold remove_dir_entry
  rw [entry_gone]
  cases held : first_block fs parent with
  | error fault =>
    rw [run_bind, run_reads, held]
    cases fault <;> simp
  | ok pair =>
    rw [run_bind, run_reads, held, ofRes_ok, andThen_ok, res_bind_ok, run_bind, run_lift]
    dsimp only
    cases erase_entry pair.2 n name with
    | error fault => cases fault <;> simp
    | ok buf => simp [write_at]

theorem destroy_undone_iff (read : read_inode fs n = .ok inode) (positive : 0 < fs.superblock.block_size.toNat) :
    (∃ e, (destroy parent n inode name).run fs = .err e fs) ↔ Undone fs inode := by
  unfold destroy
  by_cases node : Inode.uses_extents inode = true → 0 < inode.size.toNat → ∃ node, decode_extent_node inode.block.bytes = .ok node
  case neg =>
    obtain ⟨e, stopped⟩ := @free_data_stops fs inode node
    exact ⟨fun _ => .inl node, fun _ => ⟨e, run_bind_eq_err.mpr (.inl stopped)⟩⟩
  constructor
  · rintro ⟨e, ran⟩
    refine .inr ?_
    rcases run_bind_eq_err.mp ran with first | ⟨_, mid₁, first, ran₁⟩
    · rw [free_data_eq node] at first
      exact .inl (free_all_err positive first).2
    have frees := free_data_ok first
    rcases run_bind_eq_err.mp ran₁ with second | ⟨_, mid₂, second, ran₂⟩
    · obtain ⟨same, unreadable⟩ := free_inode_err second
      rw [← same] at frees unreadable
      have kept := congrArg (fun sb : Superblock.Superblock => sb.free_blocks_count) frees.superblock
      by_cases none : total (freedRuns inode) = 0
      · exact .inr ⟨none, unreadable⟩
      · exact absurd kept.symm (more_blocks (by omega) frees.fits)
    have frees' := free_inode_ok second
    have releases' := (ReleasesInode.after frees).mp (free_inode_releases second (by rw [frees.block_size]; exact positive))
    obtain ⟨offset, slot, -⟩ := slot_of_read read
    have slot' := frees'.altered.inSlot (frees.altered.inSlot slot)
    rw [run_bind, write_inode_run slot', andThen_ok] at ran₂
    obtain ⟨-, same⟩ := remove_dir_entry_err.mp ran₂
    -- A count has gone up by then.
    have kept := congrArg (fun fs => fs.superblock.free_inodes_count) same
    simp only [withSlot_superblock, frees'.superblock, frees.superblock, on_all_free_inodes, on_all_free_blocks] at kept
    exact absurd kept.symm (more_inodes releases'.fits)
  · rintro (unread | ⟨some, unreadable⟩ | ⟨none, unreadable⟩)
    · exact absurd node unread
    · exact ⟨.Io, run_bind_eq_err.mpr (.inl (by rw [free_data_eq node, free_all_unread positive some unreadable]))⟩
    · refine ⟨.Io, run_bind_eq_err.mpr (.inr ⟨(), fs, by rw [free_data_eq node, free_all_nothing none], ?_⟩)⟩
      exact run_bind_eq_err.mpr (.inl (free_inode_unread positive unreadable))

theorem destroy_done_iff (consistent : ConsistentImage fs) (found : Found fs path name p parent n inode)
    (positive : 0 < fs.superblock.block_size.toNat) :
    (∃ mid, (destroy parent n inode name).run fs = .ok () mid) ↔ Done fs parent n inode name := by
  obtain ⟨offset, slot, -⟩ := slot_of_read found.read
  constructor
  · rintro ⟨mid, ran⟩
    unfold destroy at ran
    obtain ⟨_, mid₁, first, ran₁⟩ := run_bind_eq_ok.mp ran
    obtain ⟨_, mid₂, second, ran₂⟩ := run_bind_eq_ok.mp ran₁
    have frees := free_data_ok first
    have frees' := free_inode_ok second
    have slot' := frees'.altered.inSlot (frees.altered.inSlot slot)
    rw [run_bind, write_inode_run slot', andThen_ok] at ran₂
    have releases := (free_data_iff positive).mp ⟨mid₁, first⟩
    have releases' := (ReleasesInode.after frees).mp (free_inode_releases second (by rw [frees.block_size]; exact positive))
    have gone := remove_dir_entry_ok_iff.mp ⟨mid, ran₂⟩
    rw [entry_gone_congr (stripped_reader releases first second slot positive) (stripped_size frees frees' offset),
      entry_apart consistent found releases releases' positive] at gone
    exact ⟨releases, releases', gone⟩
  · rintro ⟨releases, releases', gone⟩
    obtain ⟨mid₁, first⟩ := (free_data_iff positive).mpr releases
    have frees := free_data_ok first
    obtain ⟨mid₂, second⟩ := free_inode_run ((ReleasesInode.after frees).mpr releases')
    have frees' := free_inode_ok second
    have slot' := frees'.altered.inSlot (frees.altered.inSlot slot)
    rw [← entry_apart consistent found releases releases' positive,
      ← entry_gone_congr (stripped_reader releases first second slot positive) (stripped_size frees frees' offset)] at gone
    obtain ⟨mid, erased⟩ := remove_dir_entry_ok_iff.mpr gone
    refine ⟨mid, run_bind_eq_ok.mpr ⟨(), mid₁, first, run_bind_eq_ok.mpr ⟨(), mid₂, second, ?_⟩⟩⟩
    rw [run_bind, write_inode_run slot', andThen_ok]
    exact erased
end

/-! ### How a truncation ends -/

section
variable {fs fs' : Filesystem} {n : UInt32} {inode : Inode} {new_size : UInt64} {header : ExtentHeader} {es : List Extent}
  {e : Ext4Error}

theorem unless_run {β : Type} (reserved : Bool) (start count : Nat) (rest : Call β) (fs : Filesystem) :
    (if reserved then rest else do free_blocks start count; rest : Call β).run fs =
      ((free_all (if reserved then [] else [(start, count)])).run fs).andThen fun _ mid => rest.run mid := by
  cases reserved with
  | true => rfl
  | false =>
    show ((free_blocks start count).run fs).andThen (fun _ => rest.run) = (((free_blocks start count).run fs).andThen
      fun _ => (free_all []).run).andThen fun _ mid => rest.run mid
    cases (free_blocks start count).run fs <;> rfl
theorem free_all_append (first later : List (Nat × Nat)) (fs : Filesystem) : (free_all (first ++ later)).run fs =
    ((free_all first).run fs).andThen fun _ mid => (free_all later).run mid := by
  induction first generalizing fs with
  | nil => rfl
  | cons r first ih =>
    show ((free_blocks r.1 r.2).run fs).andThen (fun _ => (free_all (first ++ later)).run) =
      (((free_blocks r.1 r.2).run fs).andThen fun _ => (free_all first).run).andThen fun _ mid => (free_all later).run mid
    cases (free_blocks r.1 r.2).run fs with
    | ok a mid => exact ih mid
    | err e mid => rfl
    | panic => rfl

/-- What is past the cutoff is given back, and the rest stays. -/
theorem cut_extents_eq (c : Nat) (es : List Extent) (fs : Filesystem) : (cut_extents c es).run fs =
    ((free_all (released c es)).run fs).andThen fun _ mid => .ok (survivors c es) mid := by
  induction es generalizing fs with
  | nil => rfl
  | cons e es ih =>
    have short := e.len.toNat_lt
    -- The first run goes back before the others do.
    have swap : ∀ left : List Extent → List Extent,
        ((free_all (if e.uninit then [] else [past c e])).run fs).andThen
          (fun _ mid => ((cut_extents c es).run mid).andThen fun surviving mid => .ok (left surviving) mid) =
        ((free_all (released c (e :: es))).run fs).andThen fun _ mid => .ok (left (survivors c es)) mid := by
      intro left
      rw [released_cons, free_all_append]
      cases (free_all (if e.uninit then [] else [past c e])).run fs with
      | ok a mid =>
        rw [andThen_ok, andThen_ok, ih mid]
        cases (free_all (released c es)).run mid <;> rfl
      | err d mid => rfl
      | panic => rfl
    have same : ∀ first : Ended Filesystem Ext4Error (List Extent), (first.andThen fun surviving mid => .ok surviving mid) = first := by
      intro first
      cases first <;> rfl
    rw [survivors, List.filterMap_cons, survivor]
    unfold cut_extents
    by_cases below : e.logical_block.toNat + e.len.toNat ≤ c
    · have nothing : (free_all (if e.uninit then [] else [past c e])).run fs = .ok () fs := by
        refine free_all_nothing ?_
        cases e.uninit with
        | true => rfl
        | false =>
          show (past c e).2 + 0 = 0
          rw [past]
          omega
      have here := swap (e :: ·)
      rw [nothing, andThen_ok] at here
      rw [if_pos below, if_pos below]
      exact here
    rw [if_neg below, if_neg below]
    by_cases behind : c ≤ e.logical_block.toNat
    · have whole : past c e = (e.physical_block.toNat, e.len.toNat) := by
        rw [past, Nat.max_eq_right behind, Nat.sub_eq_zero_of_le behind]
        simp
      have here := swap id
      rw [whole] at here
      rw [if_pos behind, if_pos behind, unless_run]
      simp only [id_eq, same] at here
      exact here
    · have kept : (c - e.logical_block.toNat) % 65536 = c - e.logical_block.toNat := Nat.mod_eq_of_lt (by omega)
      have part : past c e =
          (e.physical_block.toNat + (c - e.logical_block.toNat), e.logical_block.toNat + e.len.toNat - c) := by
        rw [past, Nat.max_eq_left (Nat.le_of_not_le behind)]
      have here := swap ({ e with len := .ofNat (c - e.logical_block.toNat) } :: ·)
      rw [part] at here
      rw [if_neg behind, if_neg behind, unless_run, kept]
      exact here

theorem encode_extents_run {i : Nat} {block_bytes : Bytes} (room : 12 + (i + es.length) * 12 ≤ block_bytes.size)
    (each : ∀ e ∈ es, Codecs.Expressible e ∧ e.len.toNat ≤ 32768) : ∃ out, encode_extents block_bytes i es = .ok out := by
  induction es generalizing i block_bytes with
  | nil => exact ⟨block_bytes, rfl⟩
  | cons e es ih =>
    obtain ⟨told, short⟩ := each e (List.mem_cons_self ..)
    rw [List.length_cons] at room
    have written : Extent.Extent.encode_into e (block_bytes.slice (12 + i * 12) (12 + i * 12 + 12 - (12 + i * 12))) = .ok _ :=
      Codecs.extent_encode (by rw [size_slice]; omega) short fun flag => (told flag).2
    rw [encode_extents, range_ok (by omega) (by omega), res_bind_ok, written, liftErr_ok, res_bind_ok]
    have length : (patches (block_bytes.slice (12 + i * 12) (12 + i * 12 + 12 - (12 + i * 12)))
        (Extent.Extent.fields e (Codecs.rawLen e))).size = 12 := by
      rw [size_patches (Extent.extent_within e _) _ (by rw [size_slice]; omega), size_slice]
      omega
    rw [copy_ok (by rw [length]; omega), res_bind_ok]
    refine ih ?_ fun e member => each e (List.mem_cons_of_mem _ member)
    rw [size_patch _ _ _ (by rw [length]; omega)]
    omega
/-- What is left of a leaf that was read can be written. -/
theorem i_block_survivors (decoded : decode_extent_node inode.block.bytes = .ok (.Leaf header es)) (c : Nat) :
    ∃ block, i_block (survivors c es) = .ok block := by
  have few : 12 + es.length * 12 ≤ 60 := by
    rw [decode_extent_node] at decoded
    obtain ⟨header', -, decoded⟩ := res_bind_eq_ok.mp decoded
    obtain ⟨_, sized, decoded⟩ := res_bind_eq_ok.mp decoded
    have enough := of_decide_eq_true (ensure_eq_ok.mp sized)
    rw [inode.block.length] at enough
    split at decoded
    · obtain ⟨extents, collected, decoded⟩ := res_bind_eq_ok.mp decoded
      cases decoded
      rw [Decoders.length_collect collected]
      exact enough
    · obtain ⟨indices, -, decoded⟩ := res_bind_eq_ok.mp decoded
      cases decoded
  have less : (survivors c es).length ≤ es.length := List.length_filterMap_le ..
  have each : ∀ e ∈ survivors c es, Codecs.Expressible e ∧ e.len.toNat ≤ 32768 := by
    intro e member
    obtain ⟨e₀, member, left⟩ := List.mem_filterMap.mp member
    obtain ⟨told, short⟩ := leaf_expressible decoded e₀ member
    refine ⟨survivor_expressible left told short, ?_⟩
    rw [survivor] at left
    split at left
    · cases left
      exact short
    split at left
    · cases left
    · cases left
      rw [UInt16.toNat_ofNat']
      omega
  have head := Runs.encode_header (survivors c es).length
  obtain ⟨out, entries⟩ := @encode_extents_run (survivors c es) 0 (Runs.leafBytes (survivors c es).length)
    (by rw [Runs.size_leafBytes]; omega) each
  refine ⟨.ofSlice out 0 60, ?_⟩
  rw [i_block, Runs.first_part, res_bind_ok]
  show liftErr Ext4Error.ExtentEncode (Extent.ExtentHeader.encode_into (Runs.header (survivors c es).length) _) >>= _ = _
  rw [head, liftErr_ok, res_bind_ok, Runs.copy_header, res_bind_ok, entries, res_bind_ok]

/-- The number of blocks that a file of the size has. -/
def cutoff (fs : Filesystem) (new_size : UInt64) : Nat := div_ceil new_size.toNat fs.superblock.block_size.toNat

/-- An inode of the image is written, and then the records. -/
theorem write_flush_run {D : Nat → Prop} {mid : Filesystem} (flushable : Flushable fs) (altered : Altered D fs mid)
    (read : read_inode fs n = .ok inode) (inode' : Inode) :
    ∃ fs', (do write_inode n inode'; flush_metadata : Call Unit).run mid = .ok () fs' ∧ fs'.gdt = mid.gdt ∧
      Altered (Among fs [.slot n, .superblock, .table]) mid fs' := by
  obtain ⟨offset, slot, -⟩ := slot_of_read read
  have slot' := altered.inSlot slot
  have written := write_inode_altered slot' inode'
  obtain ⟨r, flushed, records⟩ := flush_altered ((flushable.altered altered).altered written)
  refine ⟨{ withSlot mid offset inode' with reader := r }, ?_, by simp only [withSlot_gdt],
    (written.wider fun i among => ?_).trans (records.wider fun i among => ?_)⟩
  · rw [run_bind, write_inode_run slot', andThen_ok]
    exact flushed
  · exact among_more (by simp) (altered.among (by simp [Use.Fixed]) among)
  · exact among_more (by simp) (altered.among (by simp [Use.Fixed]) (written.among (by simp [Use.Fixed]) among))

theorem resize_run (smaller : new_size < inode.size) (based : Inode.uses_extents inode = true)
    (decoded : decode_extent_node inode.block.bytes = .ok (.Leaf header es)) : ∃ inode', (resize n inode new_size).run fs =
      ((free_all (released (cutoff fs new_size) es)).run fs).andThen fun _ mid =>
        (do write_inode n inode'; flush_metadata : Call Unit).run mid := by
  obtain ⟨block, encoded⟩ := i_block_survivors decoded (cutoff fs new_size)
  refine ⟨shrunk inode new_size fs.superblock.block_size.toNat (survivors (cutoff fs new_size) es) block, ?_⟩
  have leaf : leaf_extents inode "truncate-shrink on depth>0 extent tree not yet supported" = .ok es := by
    rw [leaf_extents, decoded]
    rfl
  have larger : ¬ inode.size < new_size := UInt64.lt_asymm smaller
  rw [resize, run_bind, run_reads, ofRes_ok, andThen_ok, if_neg larger, based, ensure_true, leaf]
  simp only [run_bind, run_lift, ofRes_ok, andThen_ok]
  rw [← cutoff, cut_extents_eq]
  cases (free_all (released (cutoff fs new_size) es)).run fs with
  | ok a mid =>
    rw [andThen_ok, andThen_ok, encoded]
    rfl
  | err e mid => rfl
  | panic => rfl
/-- Without a leaf nothing is cut. -/
theorem resize_refused (smaller : new_size < inode.size)
    (other : ¬ (Inode.uses_extents inode = true ∧ ∃ header es, decode_extent_node inode.block.bytes = .ok (.Leaf header es))) :
    ∃ e, (resize n inode new_size).run fs = .err e fs := by
  have larger : ¬ inode.size < new_size := UInt64.lt_asymm smaller
  rw [resize, run_bind, run_reads, ofRes_ok, andThen_ok, if_neg larger]
  cases based : Inode.uses_extents inode with
  | false => exact ⟨.NotExtentBased, rfl⟩
  | true =>
    rw [ensure_true, leaf_extents]
    cases decoded : decode_extent_node inode.block.bytes with
    | ok node =>
      cases node with
      | Leaf header es => exact absurd ⟨based, header, es, decoded⟩ other
      | Internal header indices => exact ⟨_, rfl⟩
    | error fault =>
      cases fault with
      | err d => exact ⟨_, rfl⟩
      | panic => exact absurd decoded (Decoders.node_noPanic _)
theorem leaf_extents_noPanic (inode : Inode) (detail : String) : NoPanic (leaf_extents inode detail) := by
  rw [leaf_extents]
  cases decoded : decode_extent_node inode.block.bytes with
  | ok node => cases node <;> simp [NoPanic]
  | error fault =>
    cases fault with
    | err d => simp [NoPanic]
    | panic => exact absurd decoded (Decoders.node_noPanic _)
/-- When a file is to be longer its inode is written, or the call is refused. -/
theorem resize_grows (flushable : Flushable fs) (read : read_inode fs n = .ok inode) (larger : inode.size < new_size) :
    (∃ e, (resize n inode new_size).run fs = .err e fs) ∨ ∃ fs', (resize n inode new_size).run fs = .ok () fs' ∧
      fs'.gdt = fs.gdt ∧ Altered (Among fs [.slot n, .superblock, .table]) fs fs' := by
  obtain ⟨fs', ran, gdt, altered⟩ := write_flush_run flushable (altered_refl (fun _ => False) fs) read
    { inode with size := new_size, mtime := 0x65000000, ctime := 0x65000000 }
  rw [resize, run_bind, run_reads, ofRes_ok, andThen_ok, if_pos larger, run_bind, run_lift]
  cases allocated : (if Inode.uses_extents inode ∧ 0 < inode.size.toNat then do
      let extents ← leaf_extents inode "truncate-grow on depth>0 extent tree not yet supported"
      .ok (total_len extents)
    else .ok 0 : Res Ext4Error Nat) with
  | ok blocks =>
    rw [ofRes_ok, andThen_ok, run_bind, run_lift]
    by_cases enough : new_size.toNat ≤ blocks * fs.superblock.block_size.toNat
    · rw [ensure_of enough, ofRes_ok, andThen_ok]
      exact .inr ⟨fs', ran, gdt, altered⟩
    · rw [ensure_not enough]
      exact .inl ⟨_, rfl⟩
  | error fault =>
    cases fault with
    | err e => exact .inl ⟨e, rfl⟩
    | panic =>
      split at allocated
      · rcases res_bind_eq_error.mp allocated with failed | ⟨_, -, failed⟩
        · exact absurd failed (leaf_extents_noPanic _ _)
        · cases failed
      · cases allocated
end

end Justext4.ReleaseEnds
