import Justext4.Agreement
import Justext4.Calls

/-!
The bytes that no node has. They are the slots of the inodes that are not in
the tree and the blocks that no inode of the tree has. No call reads them, so
that two filesystems which differ in them only end every call in the same way;
a creation writes all that it takes into use, and the rest stays free.
-/
namespace Justext4.FreeBytes
open Justext4 Justext4.Fallible Justext4.Filesystem Justext4.Volumes Bytes
open Justext4.Inode (Inode)
open Justext4.DirEntry (DirEntry encode_range)
open Justext4.DirBlock
open Justext4.Nodes
open Justext4.NamedTree
open Justext4.Paths
open Justext4.Backing
open Justext4.Reading
open Justext4.Entries
open Justext4.Counts
open Justext4.Leaves
open Justext4.Create
open Justext4.Remove
open Justext4.Rename (Renaming Cleared Relocated directory_of_open live_moved owned_modify)
open Justext4.Change (Changing resized)
open Justext4.Calls
open Justext4.TwoRuns
open Justext4.Agreement
open Justext4.Runs (runBlock run runs)

/-- No position of `D` is in the metadata before the inode table, or in the slot
    or the blocks of a node. -/
structure Unused (g : Geometry) (N : NodeMap) (D : Nat → Prop) : Prop where
  late : Late g D
  slots : ∀ {n}, Live N n → Clear D (slotOffset g n) 256
  blocks : ∀ {n x}, N n = some x → ∀ b, x.Owns b → Clear D (b * g.block_size) g.block_size

/-- A position in the slot of an inode that is not in the tree, or in a block
    that no node has. -/
def Free (g : Geometry) (N : NodeMap) (i : Nat) : Prop :=
  (∃ n : UInt32, 1 ≤ n.toNat ∧ n.toNat ≤ g.per_group ∧ N n = none ∧ slotOffset g n ≤ i ∧ i < slotOffset g n + 256) ∨
  (∃ b, g.root ≤ b ∧ (∀ n x, N n = some x → ¬ x.Owns b) ∧ b * g.block_size ≤ i ∧ i < b * g.block_size + g.block_size)

/-- No node has more than before. -/
def Fewer (N N' : NodeMap) : Prop := ∀ m y, N' m = some y → ∃ x, N m = some x ∧ ∀ b, y.Owns b → x.Owns b

section
variable {g : Geometry} {v : Volume} {N N' : NodeMap} {D : Nat → Prop} {s t : Filesystem} {n p : UInt32} {x : Node}

/-! ### What is free -/

theorem slots_apart {n m : UInt32} (low : 1 ≤ n.toNat) (low' : 1 ≤ m.toNat) (other : n ≠ m) {i : Nat}
    (inside : slotOffset g n ≤ i ∧ i < slotOffset g n + 256) : ¬ (slotOffset g m ≤ i ∧ i < slotOffset g m + 256) := by
  have different : n.toNat ≠ m.toNat := fun same => other (UInt32.toNat_inj.mp same)
  rw [slotOffset] at inside ⊢
  omega
theorem blocks_apart {b c d i : Nat} (other : b ≠ c) (inside : b * d ≤ i ∧ i < b * d + d) : ¬ (c * d ≤ i ∧ i < c * d + d) := by
  rcases Nat.lt_or_gt_of_ne other with before | after
  · have le : b * d + d ≤ c * d := block_before before
    omega
  · have le : c * d + d ≤ b * d := block_before after
    omega
/-- A slot comes before the blocks. -/
theorem slot_before_block {n : UInt32} (low : 1 ≤ n.toNat) (high : n.toNat ≤ g.per_group) {b i : Nat} (past : g.root ≤ b)
    (inside : slotOffset g n ≤ i ∧ i < slotOffset g n + 256) : i < b * g.block_size := by
  have fits := slot_end (g := g) low high
  have le : g.root * g.block_size ≤ b * g.block_size := Nat.mul_le_mul_right _ past
  omega

theorem unused_free (consistent : Consistent g v N) : Unused g N (Free g N) where
  late i free := by
    rcases free with ⟨n, low, -, -, le, -⟩ | ⟨b, past, -, le, -⟩
    · rw [slotOffset] at le
      omega
    · have four : 4 * g.block_size ≤ b * g.block_size :=
        Nat.mul_le_mul_right _ (Nat.le_trans (by rw [Geometry.root]; omega) past)
      omega
  slots live i low high free := by
    have inodes := g.inodes_high
    obtain ⟨x, found⟩ := Option.ne_none_iff_exists'.mp live
    have sound := consistent.sound found
    have listed := sound.listed
    rcases free with ⟨m, low', -, dead, inside⟩ | ⟨b, past, -, inside⟩
    · refine slots_apart sound.low low' ?_ ⟨low, high⟩ inside
      rintro rfl
      exact live dead
    · have before := slot_before_block sound.low (by omega) past ⟨low, high⟩
      omega
  blocks found b owns i low high free := by
    have past := ((consistent.sound found).owned b owns).1
    rcases free with ⟨m, low', high', dead, inside⟩ | ⟨c, past', unowned, inside⟩
    · have before := slot_before_block low' high' past inside
      omega
    · refine blocks_apart ?_ ⟨low, high⟩ inside
      rintro rfl
      exact unowned _ _ found owns
/-- What is free stays free when no node has more than before. -/
theorem free_mono (fewer : Fewer N N') (i : Nat) (free : Free g N i) : Free g N' i := by
  rcases free with ⟨m, low, high, dead, inside⟩ | ⟨b, past, unowned, inside⟩
  · refine .inl ⟨m, low, high, ?_, inside⟩
    cases there : N' m with
    | none => rfl
    | some y =>
      obtain ⟨x, found, -⟩ := fewer m y there
      rw [dead] at found
      cases found
  · refine .inr ⟨b, past, fun m y there owns => ?_, inside⟩
    obtain ⟨x, found, wider⟩ := fewer m y there
    exact unowned m x found (wider b owns)

theorem fewer_refl (N : NodeMap) : Fewer N N := fun _ y there => ⟨y, there, fun _ owns => owns⟩
theorem Fewer.trans {N'' : NodeMap} (first : Fewer N N') (second : Fewer N' N'') : Fewer N N'' := by
  intro m z there
  obtain ⟨y, mid, narrower⟩ := second m z there
  obtain ⟨x, found, narrow⟩ := first m y mid
  exact ⟨x, found, fun b owns => narrow b (narrower b owns)⟩
theorem fewer_modify {f : Node → Node} (keeps : ∀ z b, (f z).Owns b → z.Owns b) : Fewer N (modify N p f) := by
  intro m y there
  rcases modify_some there with ⟨-, old⟩ | ⟨rfl, z, old, rfl⟩
  · exact ⟨y, old, fun _ owns => owns⟩
  · exact ⟨z, old, keeps z⟩
theorem fewer_onKids (f : List Kid → List Kid) : Fewer N (modify N p (.onKids f)) :=
  fewer_modify fun z b owns => (owns_onKids f z b).mp owns
theorem fewer_erase : Fewer N (erase N n) := by
  intro m y there
  rw [erase] at there
  split at there
  · cases there
  · exact ⟨y, there, fun _ owns => owns⟩
theorem fewer_withoutLeaf (name : List UInt8) : Fewer N (withoutLeaf N p name n) := (fewer_onKids _).trans fewer_erase
theorem fewer_moved (name : List UInt8) (p' : UInt32) (name' : List UInt8) (m : UInt32) (code : UInt8) :
    Fewer N (moved N p name p' name' m code) :=
  ((fewer_onKids _).trans (fewer_onKids _)).trans (fewer_modify fun z b owns => (owns_withParent p' z b).mp owns)

/-- A directory is still there, with its block, when a file or a link has gone. -/
theorem dir_without {block : Nat} {parent : UInt32} {kids : List Kid} (found : N p = some (.dir block parent kids))
    (here : N n = some x) (file : x.code ≠ 2) (q : UInt32) (name : List UInt8) :
    ∃ kids', withoutLeaf N q name n p = some (.dir block parent kids') := by
  have other : p ≠ n := by
    rintro rfl
    rw [here] at found
    cases found
    exact file rfl
  have kept : withoutLeaf N q name n p = dropKid N q name p := if_neg other
  by_cases same : p = q
  · subst same
    exact ⟨_, kept.trans (modify_at found)⟩
  · exact ⟨kids, kept.trans ((modify_other _ same).trans found)⟩

/-! ### Nodes are read alike -/

section
variable (holds : Holds g v s) (consistent : Consistent g v N) (agree : Agree g D s t) (unused : Unused g N D)
include agree unused

theorem read_node_same (live : Live N n) : read_inode t n = read_inode s n := agree.read_inode (unused.slots live)

include consistent

theorem read_file_same (live : Live N n) : read_file t (v.slot n) = read_file s (v.slot n) := by
  obtain ⟨x, found⟩ := Option.ne_none_iff_exists'.mp live
  have sound := consistent.sound found
  have clear := unused.blocks found
  cases x with
  | dir block parent kids =>
    have backed : DirBacked g v n block parent kids := sound.backed
    have high := (sound.owned block rfl).2.1
    have limit := g.limit_total
    have total := g.total_high
    refine agree.read_file backed.flags backed.run (by decide) (by omega) fun b low high => clear b ?_
    show b = block
    omega
  | file start count =>
    have backed : FileBacked g v n start count := sound.backed
    exact agree.read_file backed.flags backed.run backed.short backed.small fun b low high => clear b ⟨low, high⟩
  | link => rw [read_file_link sound, read_file_link sound]
theorem read_dir_same (live : Live N n) : read_dir t (v.slot n) = read_dir s (v.slot n) := by
  rw [read_dir, read_dir, read_file_same consistent agree unused live]
theorem lookup_same (live : Live N n) (name : List UInt8) : lookup t (v.slot n) name = lookup s (v.slot n) name := by
  rw [lookup, lookup, read_dir_same consistent agree unused live]
theorem ensure_absent_same (live : Live N n) (name : List UInt8) :
    ensure_absent t (v.slot n) name = ensure_absent s (v.slot n) name := by
  rw [ensure_absent, ensure_absent, lookup_same consistent agree unused live]

omit agree unused
include holds

/-- A name that is looked up leads to a node. -/
theorem lookup_live {block : Nat} {parent : UInt32} {kids : List Kid} (found : N p = some (.dir block parent kids))
    {name : List UInt8} (looked : lookup s (v.slot p) name = .ok n) : Live N n := by
  rw [lookup_ok holds consistent found] at looked
  cases edge : named (listing p parent kids) name with
  | none => rw [edge] at looked; cases looked
  | some m =>
    rw [edge] at looked
    cases looked
    exact step_live consistent ((step_dir found name).trans edge)
theorem open_live {path : List UInt8} (opened : open_path s path = .ok n) : Live N n := by
  rcases open_path_walk holds consistent path with ⟨m, walked, opened'⟩ | ⟨-, e, refused⟩
  · cases opened.symm.trans opened'
    exact walk_step_live consistent consistent.linked.tree.root_live walked
  · rw [refused] at opened
    cases opened
theorem inode_of_read {inode : Inode} (live : Live N n) (read : read_inode s n = .ok inode) : inode = v.slot n := by
  rw [read_node holds consistent live] at read
  exact (Except.ok.inj read).symm

include agree unused

theorem open_from_same (live : Live N n) (names : List (List UInt8)) : open_from t n names = open_from s n names := by
  induction names generalizing n with
  | nil => rfl
  | cons name names ih =>
    obtain ⟨x, found⟩ := Option.ne_none_iff_exists'.mp live
    rw [open_from, open_from]
    split
    · exact ih live
    rw [read_node_same agree unused live, read_node holds consistent live, res_bind_ok, res_bind_ok,
      (types_of_node (consistent.sound found).backed).1, lookup_same consistent agree unused live]
    cases x with
    | dir block parent kids =>
      cases looked : lookup s (v.slot n) name with
      | error fault => rfl
      | ok m =>
        have next := ih (lookup_live holds consistent found looked)
        show (ensure true _ >>= fun _ => _) = (ensure true _ >>= fun _ => _)
        simp only [ensure_true, res_bind_ok, next]
    | file => rfl
    | link => rfl
theorem open_path_same (path : List UInt8) : open_path t path = open_path s path :=
  open_from_same holds consistent agree unused consistent.linked.tree.root_live _
theorem open_directory_same (path : List UInt8) : open_directory t path = open_directory s path := by
  rw [open_directory, open_directory, open_path_same holds consistent agree unused]
  rcases open_path_walk holds consistent path with ⟨m, walked, opened⟩ | ⟨-, e, refused⟩
  · have live := walk_step_live consistent consistent.linked.tree.root_live walked
    rw [opened, res_bind_ok, res_bind_ok, read_node_same agree unused live]
  · rw [refused, res_bind_error, res_bind_error]

/-! ### Calls that look for a place -/

/-- The checks of a creation find the same in both. -/
theorem under_same {α : Type} {R E : Filesystem → Filesystem → Prop} (failed : E s t) (path : List UInt8)
    {next : UInt32 → Inode → List UInt8 → Call α}
    (later : ∀ parent_path name p block parent kids, Place g v N path parent_path name p block parent kids →
      Same R E ((next p (v.slot p) name).run s) ((next p (v.slot p) name).run t)) :
    Same R E ((under path next).run s) ((under path next).run t) := by
  refine same_lift_bind failed fun halves split => ?_
  obtain ⟨parent_path, name⟩ := halves
  refine same_reads_bind failed (open_directory_same holds consistent agree unused parent_path) fun directory opened => ?_
  obtain ⟨p, inode⟩ := directory
  obtain ⟨block, parent, kids, directory, rfl⟩ := directory_of_open holds consistent opened
  have live := live_of directory.found
  refine same_reads_bind failed (ensure_absent_same consistent agree unused live name) fun _ absent => ?_
  have free : named (listing p parent kids) name = none := by
    rw [ensure_absent_ok holds consistent directory.found] at absent
    by_contra taken
    rw [if_neg taken] at absent
    cases absent
  exact later parent_path name p block parent kids ⟨split, directory, free⟩

/-! ### Calls that remove -/

theorem unlink_same (path : List UInt8) : Same (Agree g D) (Agree g D) ((unlink path).run s) ((unlink path).run t) := by
  refine same_lift_bind agree fun halves _ => ?_
  obtain ⟨parent_path, name⟩ := halves
  refine same_reads_bind agree (open_directory_same holds consistent agree unused parent_path) fun directory opened => ?_
  obtain ⟨p, inode⟩ := directory
  obtain ⟨block, parent, kids, directory, rfl⟩ := directory_of_open holds consistent opened
  have found := directory.found
  refine same_reads_bind agree (lookup_same consistent agree unused (live_of found) name) fun target looked => ?_
  have live := lookup_live holds consistent found looked
  refine same_reads_bind agree (read_node_same agree unused live) fun target_inode _ => ?_
  refine same_lift_bind agree fun _ _ => ?_
  have one := oneBlock (consistent.sound found)
  refine same_bind (destroy_same agree unused.late one (unused.blocks found block rfl) _ _ _) fun _ s t _ _ agree => ?_
  exact flush_agree agree
theorem rmdir_same (path : List UInt8) : Same (Agree g D) (Agree g D) ((rmdir path).run s) ((rmdir path).run t) := by
  refine same_lift_bind agree fun halves _ => ?_
  obtain ⟨parent_path, name⟩ := halves
  refine same_reads_bind agree (open_directory_same holds consistent agree unused parent_path) fun directory opened => ?_
  obtain ⟨p, inode⟩ := directory
  obtain ⟨block, parent, kids, directory, rfl⟩ := directory_of_open holds consistent opened
  have found := directory.found
  refine same_reads_bind agree (lookup_same consistent agree unused (live_of found) name) fun target looked => ?_
  have live := lookup_live holds consistent found looked
  refine same_lift_bind agree fun _ _ => ?_
  refine same_reads_bind agree (read_node_same agree unused live) fun target_inode read => ?_
  obtain rfl := inode_of_read holds consistent live read
  refine same_lift_bind agree fun _ _ => ?_
  refine same_reads_bind agree (read_dir_same consistent agree unused live) fun entries _ => ?_
  refine same_lift_bind agree fun _ _ => ?_
  have one := oneBlock (consistent.sound found)
  refine same_bind (destroy_same agree unused.late one (unused.blocks found block rfl) _ _ _) fun _ s t _ _ agree => ?_
  refine same_bind (write_inode_agree agree _ _) fun _ s t _ _ agree => ?_
  refine same_bind (change_gdt0_same agree fun _ => ⟨rfl, rfl, rfl⟩) fun _ s t _ _ agree => ?_
  exact flush_agree agree

/-! ### Calls that change an inode -/

theorem with_inode_mut_same (path : List UInt8) (mutate : Inode → Inode) :
    Same (Agree g D) (Agree g D) ((with_inode_mut path mutate).run s) ((with_inode_mut path mutate).run t) := by
  refine same_reads_bind agree (open_path_same holds consistent agree unused path) fun m opened => ?_
  have live := open_live holds consistent opened
  refine same_reads_bind agree (read_node_same agree unused live) fun inode _ => ?_
  exact write_inode_agree agree m _
theorem truncate_same (path : List UInt8) (new_size : UInt64) :
    Same (Agree g D) (Agree g D) ((Filesystem.truncate path new_size).run s) ((Filesystem.truncate path new_size).run t) := by
  refine same_reads_bind agree (open_path_same holds consistent agree unused path) fun m opened => ?_
  have live := open_live holds consistent opened
  refine same_reads_bind agree (read_node_same agree unused live) fun inode _ => ?_
  refine same_lift_bind agree fun _ _ => ?_
  split
  · exact same_pure agree ()
  refine same_reads_bind agree (by rw [agree.superblock]) fun block_size _ => ?_
  split
  · refine same_lift_bind agree fun allocated_blocks _ => ?_
    refine same_lift_bind agree fun _ _ => ?_
    refine same_bind (write_inode_agree agree m _) fun _ s t _ _ agree => ?_
    exact flush_agree agree
  · refine same_lift_bind agree fun _ _ => ?_
    refine same_lift_bind agree fun extents _ => ?_
    refine same_bind (cut_extents_same unused.late agree _ _) fun surviving s t _ _ agree => ?_
    refine same_lift_bind agree fun block _ => ?_
    refine same_bind (write_inode_agree agree m _) fun _ s t _ _ agree => ?_
    exact flush_agree agree

/-! ### Renames -/

theorem destination_same {block : Nat} {parent : UInt32} {kids : List Kid}
    (found : N p = some (.dir block parent kids)) (name : List UInt8) (src : UInt32) (src_is_dir : Bool) :
    destination t (v.slot p) name src src_is_dir = destination s (v.slot p) name src src_is_dir := by
  rw [destination, destination, lookup_same consistent agree unused (live_of found)]
  cases looked : lookup s (v.slot p) name with
  | error fault =>
    cases fault with
    | err e => cases e <;> rfl
    | panic => rfl
  | ok k =>
    have below := lookup_live holds consistent found looked
    simp only [catchErr_ok, res_bind_ok, read_node_same agree unused below]
omit holds consistent unused
/-- The part of a rename that changes the directories. -/
theorem move_entry_same {old_parent new_parent : UInt32} {old_parent_inode new_parent_inode src_inode : Inode}
    {block block' : Nat} (one : OneBlock g old_parent_inode block) (clear : Clear D (block * g.block_size) g.block_size)
    (one' : OneBlock g new_parent_inode block') (clear' : Clear D (block' * g.block_size) g.block_size)
    (inner : Inode.is_directory src_inode = true → ∃ b, OneBlock g src_inode b ∧ Clear D (b * g.block_size) g.block_size)
    (old_name new_name : List UInt8) (src : UInt32) (code : UInt8) :
    Same (Agree g D) (Agree g D)
      ((move_entry old_parent new_parent old_parent_inode new_parent_inode old_name new_name src src_inode code).run s)
      ((move_entry old_parent new_parent old_parent_inode new_parent_inode old_name new_name src src_inode code).run t) := by
  refine same_bind (add_dir_entry_same agree one' clear' new_name src code) fun _ s t _ _ agree => ?_
  have removed : Same (Agree g D) (Agree g D)
      ((remove_dir_entry (if old_parent = new_parent then new_parent_inode else old_parent_inode) src old_name).run s)
      ((remove_dir_entry (if old_parent = new_parent then new_parent_inode else old_parent_inode) src old_name).run t) := by
    split
    · exact remove_dir_entry_same agree one' clear' src old_name
    · exact remove_dir_entry_same agree one clear src old_name
  refine same_bind removed fun _ s t _ _ agree => ?_
  split
  · rename_i both
    obtain ⟨b, single, apart⟩ := inner both.2
    refine same_bind (update_dotdot_same agree single apart new_parent) fun _ s t _ _ agree => ?_
    refine same_lift_bind agree fun _ _ => ?_
    refine same_bind (write_inode_agree agree _ _) fun _ s t _ _ agree => ?_
    refine same_bind (write_inode_agree agree _ _) fun _ s t _ _ agree => ?_
    exact flush_agree agree
  · exact flush_agree agree

include holds consistent unused

theorem rename_same (old_path new_path : List UInt8) :
    Same (Agree g D) (Agree g D) ((rename old_path new_path).run s) ((rename old_path new_path).run t) := by
  refine same_lift_bind agree fun old_halves _ => ?_
  refine same_lift_bind agree fun new_halves new_split => ?_
  obtain ⟨new_parent_path, new_name⟩ := new_halves
  refine same_reads_bind agree (open_directory_same holds consistent agree unused _) fun old_directory opened => ?_
  obtain ⟨p, inode⟩ := old_directory
  obtain ⟨block, parent, kids, directory, rfl⟩ := directory_of_open holds consistent opened
  have found := directory.found
  have one := oneBlock (consistent.sound found)
  have clear := unused.blocks found block rfl
  refine same_reads_bind agree (lookup_same consistent agree unused (live_of found) _) fun m looked => ?_
  have live := lookup_live holds consistent found looked
  refine same_lift_bind agree fun _ _ => ?_
  refine same_reads_bind agree (read_node_same agree unused live) fun src_inode read => ?_
  obtain rfl := inode_of_read holds consistent live read
  refine same_lift_bind agree fun code _ => ?_
  refine same_reads_bind agree (open_directory_same holds consistent agree unused _) fun new_directory opened' => ?_
  obtain ⟨p', inode'⟩ := new_directory
  obtain ⟨block', parent', kids', directory', rfl⟩ := directory_of_open holds consistent opened'
  have found' := directory'.found
  have clear' := unused.blocks found' block' rfl
  have inner : Inode.is_directory (v.slot m) = true → ∃ b, OneBlock g (v.slot m) b ∧ Clear D (b * g.block_size) g.block_size := by
    intro directory
    obtain ⟨x, here⟩ := Option.ne_none_iff_exists'.mp live
    rw [(types_of_node (consistent.sound here).backed).1] at directory
    cases x with
    | dir b q ks => exact ⟨b, oneBlock (consistent.sound here), unused.blocks here b rfl⟩
    | file => cases directory
    | link => cases directory
  refine same_reads_bind agree (destination_same holds consistent agree unused found' _ _ _) fun dst _ => ?_
  cases dst with
  | Source => exact same_pure agree ()
  | Free => exact move_entry_same agree one clear (oneBlock (consistent.sound found')) clear' inner _ _ m code
  | Replaced =>
    refine same_bind (unlink_same holds consistent agree unused _) fun _ s' t' removed _ agree' => ?_
    refine same_reads_bind agree' (agree'.read_inode (unused.slots (live_of found'))) fun inode read' => ?_
    -- The directory that is read again has its block as before.
    have one' : OneBlock g inode block' := by
      have ended := unlink_ends holds consistent (join_path new_parent_path new_name)
      rw [removed] at ended
      cases ended with
      | removed _ _ holds' _ pruned file =>
        obtain ⟨ks, there⟩ := dir_without found' pruned.here file _ _
        rw [← pruned.nodes] at there
        rw [inode_of_read holds' pruned.consistent (live_of there) read']
        exact oneBlock (pruned.consistent.sound there)
    have single : ∃ b, OneBlock g (if p = p' then inode else v.slot p) b ∧ Clear D (b * g.block_size) g.block_size := by
      split
      · exact ⟨block', one', clear'⟩
      · exact ⟨block, one, clear⟩
    obtain ⟨b, single, apart⟩ := single
    exact move_entry_same agree' single apart one' clear' inner _ _ m code
end
end

end Justext4.FreeBytes
