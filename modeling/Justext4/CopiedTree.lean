import Justext4.Populate

/-!
What a copied tree reads back as. A copy that returns shows the copied part of
the host tree, and two copies give the same image when what is copied is
enumerated in the same order. A file that has more blocks than 32 bits can
count is never read back.
-/
namespace Justext4.CopiedTree
open Justext4 Justext4.Fallible Justext4.Filesystem Justext4.Volumes Justext4.Mkfs Bytes
open Justext4.Inode (I_BLOCK_LEN)
open Justext4.DirEntry (DirEntry)
open Justext4.NamedTree
open Justext4.PathTree
open Justext4.DirBlock
open Justext4.Nodes
open Justext4.Paths
open Justext4.Backing
open Justext4.Reading
open Justext4.Leaves
open Justext4.Create
open Justext4.Start
open Justext4.View
open Justext4.Calls
open Justext4.Complaints
open Justext4.Progress
open Justext4.HostTree Justext4.Utf8
open Justext4.Populate

/-! ### The copied tree -/

/-- Every path of names reads back what the copied part of the host tree has there. -/
def Replicates (fs : Filesystem) (host : Host) : Prop :=
  ∀ path, (∀ name ∈ components path, Proper name) → read_back fs path = host_shape host (components path)
/-- No file that is copied has more than so many blocks. -/
def Limited (block_size limit : Nat) (host : Host) : Prop :=
  ∀ q bytes, host_shape host q = some (.file bytes) → div_ceil bytes.size block_size ≤ limit

section
variable {entries : Entries} {host : Host} {q : List (List UInt8)} {fuel : Nat}

theorem proper_host (named : WellNamed host) {inner : Host} (there : host_at host q = some inner) : ∀ name ∈ q, Proper name := by
  induction q generalizing host with
  | nil =>
    intro name member
    cases member
  | cons name q ih =>
    cases host with
    | dir entries =>
      rw [host_at_cons, Option.bind_eq_some_iff] at there
      obtain ⟨e, hit, below⟩ := there
      have same : e.1 = name := by simpa using List.find?_some hit
      have first : host_at (.dir entries) [name] = some e.2 := by
        rw [host_at_cons, hit, Option.bind_some, host_at_nil]
      intro a member
      rcases List.mem_cons.mp member with rfl | later
      · exact same ▸ (named [] entries rfl).2 e (List.mem_of_find?_eq_some hit)
      · exact ih (named.below first) below a later
    | file bytes => cases there
    | symlink target => cases there
    | special => cases there
/-- Every creation is that of a copied entry of the tree. -/
theorem item_host (named : WellNamed (.dir entries)) (enough : Host.dirs (.dir entries) ≤ fuel) {i : Item}
    (member : i ∈ items fuel [(entries, [])]) :
    host_at (.dir entries) (i.place ++ [i.name]) = some i.host ∧ i.host.copied = true := by
  have only : ∀ top ∈ [(entries, ([] : List (List UInt8)))], WellNamed (.dir top.1) := fun top member => by
    rw [List.mem_singleton.mp member]
    exact named
  have at_place := items_at enough (List.pairwise_singleton _ (entries, ([] : List (List UInt8)))) only i.place
  have inside : i ∈ (items fuel [(entries, [])]).filter (·.place == i.place) :=
    List.mem_filter.mpr ⟨member, beq_self_eq_true _⟩
  by_cases some : ∃ found, Leads [(entries, [])] i.place found
  · obtain ⟨found, leads⟩ := some
    rw [at_place.1 found leads] at inside
    obtain ⟨e, kept, same⟩ := List.mem_map.mp inside
    have there := leads_root.mp leads
    have nodup := (named i.place found there).1
    rw [← same] at there ⊢
    refine ⟨?_, ?_⟩
    · rw [host_at_append, there, Option.bind_some]
      show host_at (.dir found) [e.1] = _
      rw [host_at_cons, find_kept nodup kept, Option.bind_some, host_at_nil]
      rfl
    · have copied := (List.mem_filter.mp kept).2
      rw [Bool.and_eq_true] at copied
      exact copied.2
  · rw [at_place.2 fun found leads => some ⟨found, leads⟩] at inside
    cases inside
theorem fit_items {g : Geometry} (named : WellNamed (.dir entries)) (enough : Host.dirs (.dir entries) ≤ fuel)
    (storable : ∀ q bytes, host_shape (.dir entries) q = some (.file bytes) →
      Storable g.block_size (div_ceil bytes.size g.block_size)) : ∀ i ∈ items fuel [(entries, [])], Fit g i := by
  intro i member
  obtain ⟨there, copied⟩ := item_host named enough member
  refine ⟨proper_host named there, copied, fun bytes kind => storable (i.place ++ [i.name]) bytes ?_⟩
  rw [host_shape, there, kind]
  rfl
end

section
variable {config : Config} {fs fs' : Filesystem} {warnings : List Warning} {host : Host}

/-- A fresh image shows an empty root. -/
theorem copied_fresh {g : Geometry} {v : Volume} {block : Nat} (holds : Holds g v fs) (consistent : Consistent g v (rootOnly block)) :
    Copied g [] fs v (rootOnly block) := by
  have nothing : ∀ i ∈ ([] : List Item), False := fun i member => by cases member
  refine ⟨holds, consistent, ⟨fun i member => (nothing i member).elim, fun i member => (nothing i member).elim⟩, fun q => ?_⟩
  cases q with
  | nil => rfl
  | cons name q => rfl

/-- A copy that returns is read back, when the blocks of its files can be counted. -/
theorem replicates_of_storable (contained : Contained config) (opened : Opened config fs) (named : WellNamed host)
    (storable : ∀ q bytes, host_shape host q = some (.file bytes) →
      Storable config.block_size.toNat (div_ceil bytes.size config.block_size.toNat))
    (ran : (populate_from_host_tree host).run ⟨fs, []⟩ = .ok () ⟨fs', warnings⟩) : Replicates fs' host := by
  obtain ⟨layout, usable⟩ := usable_of_opened contained opened
  obtain ⟨image, fs₀, g, formatted, opened₀, fitting, holds, consistent⟩ := start_ok usable
  rw [← opened.unique ⟨image, formatted, opened₀⟩] at holds consistent
  obtain ⟨entries, rfl, made, -⟩ := populate_calls ran
  rw [← fitting.block_size] at storable
  obtain ⟨v', N', copied⟩ := copied_run (copied_fresh holds consistent) (fit_items named (Nat.le_refl _) storable) made
  intro path proper
  rw [read_back_eq copied.holds copied.consistent proper, copied.same, List.nil_append, built_items named (Nat.le_refl _)]

/-- What is read of a file has no more blocks than 32 bits can count. -/
theorem read_file_limited {inode : Inode.Inode} {bytes : Bytes} (plain : Inode.is_symlink inode = false)
    (read : read_file fs inode = .ok bytes) : div_ceil bytes.size fs.superblock.block_size.toNat ≤ 4294967296 := by
  rw [read_file] at read
  split at read
  · cases read
    rw [size_zeros, div_ceil_zero]
    exact Nat.zero_le _
  · rw [if_neg (by simp [plain]), res_bind_eq_ok] at read
    obtain ⟨-, -, rest⟩ := read
    rw [res_bind_eq_ok] at rest
    obtain ⟨blocks, collected, cut⟩ := rest
    cases cut
    have shorter : ((joined blocks).truncate inode.size.toNat).size ≤ inode.size.toNat := Nat.min_le_left ..
    refine Nat.le_trans (Change.div_ceil_mono shorter _) ?_
    rcases Nat.eq_zero_or_pos (div_ceil inode.size.toNat fs.superblock.block_size.toNat) with none | some
    · rw [none]
      exact Nat.zero_le _
    · obtain ⟨block, last⟩ := collect_each collected (div_ceil inode.size.toNat fs.superblock.block_size.toNat - 1)
        (Nat.zero_le _) (by omega)
      rw [read_block, res_bind_eq_ok] at last
      obtain ⟨_, small, -⟩ := last
      rw [ensure_eq_ok, decide_eq_true_eq] at small
      omega
theorem read_back_limited {path : List UInt8} {bytes : Bytes} (read : read_back fs path = some (.file bytes)) :
    div_ceil bytes.size fs.superblock.block_size.toNat ≤ 4294967296 := by
  simp only [Populate.read_back, Option.bind_eq_bind, Option.bind_eq_some_iff] at read
  obtain ⟨n, -, inode, -, rest⟩ := read
  split at rest
  · rw [Option.bind_eq_some_iff] at rest
    obtain ⟨entries, -, other⟩ := rest
    cases other
  · rw [Option.bind_eq_some_iff] at rest
    obtain ⟨bytes', found, same⟩ := rest
    split at same
    · cases same
    · rename_i plain
      cases same
      cases ran : read_file fs inode with
      | ok bytes'' =>
        rw [ran] at found
        cases found
        exact read_file_limited (by simpa using plain) ran
      | error fault => rw [ran] at found; cases found

theorem block_size_kept {made : List Item} (copied : ∀ i ∈ made, i.host.copied = true)
    (ran : after (made.map request) fs = some fs') : fs'.superblock.block_size = fs.superblock.block_size := by
  induction made generalizing fs with
  | nil =>
    cases ran
    rfl
  | cons i made ih =>
    have keeps : ∀ {call : Call UInt32} {answer fs₁}, Sober call → (numbered call).run fs = .ok answer fs₁ →
        fs₁.superblock.block_size = fs.superblock.block_size := by
      intro call answer fs₁ sober first
      exact ((sober_bind sober fun n => sober_pure (some n)).ends fs).ok first
    rw [List.map_cons, after] at ran
    cases first : (execute (request i)).run fs with
    | ok answer fs₁ =>
      rw [first] at ran
      rw [ih (fun j member => copied j (List.mem_cons_of_mem _ member)) ran]
      have here := copied i (List.mem_cons_self ..)
      rw [request] at first
      cases kind : i.host with
      | dir inner =>
        rw [kind] at first
        exact keeps (sober_mkdir _) first
      | file bytes =>
        rw [kind] at first
        exact keeps (sober_create_file _ bytes) first
      | symlink target =>
        rw [kind] at first here
        exact keeps (sober_symlink _ (of_decide_eq_true here)) first
      | special =>
        rw [kind] at here
        cases here
    | err e fs₁ => rw [first] at ran; cases ran
    | panic => rw [first] at ran; cases ran

/-- A copy that returns is not read back when some file has more than 2^32 blocks. -/
theorem limited_of_replicates (contained : Contained config) (opened : Opened config fs) (named : WellNamed host)
    (ran : (populate_from_host_tree host).run ⟨fs, []⟩ = .ok () ⟨fs', warnings⟩) (replicates : Replicates fs' host) :
    Limited config.block_size.toNat 4294967296 host := by
  intro q bytes found
  obtain ⟨entries, rfl, made, -⟩ := populate_calls ran
  obtain ⟨inner, there⟩ : ∃ inner, host_at (.dir entries) q = some inner := by
    rw [host_shape, Option.bind_eq_some_iff] at found
    obtain ⟨inner, there, -⟩ := found
    exact ⟨inner, there⟩
  have proper := proper_host named there
  have spelling := components_path_of fun name member => component_of_proper (proper name member)
  have read := replicates (path_of q) (by rw [spelling]; exact proper)
  rw [spelling, found] at read
  have limited := read_back_limited read
  obtain ⟨layout, usable⟩ := usable_of_opened contained opened
  obtain ⟨image, fs₀, g, formatted, opened₀, fitting, holds, consistent⟩ := start_ok usable
  rw [← opened.unique ⟨image, formatted, opened₀⟩] at holds
  rwa [block_size_kept (fun i member => (item_host named (Nat.le_refl _) member).2) made, holds.static'.block_size,
    fitting.block_size] at limited
end

/-! ### The order of the enumeration -/

/-- The same contents, or the same names in any order. -/
inductive Shuffled : Option Shape → Option Shape → Prop
  | same (shape : Option Shape) : Shuffled shape shape
  | dirs {names names' : List (List UInt8)} (perm : names.Perm names') : Shuffled (some (.dir names)) (some (.dir names'))
/-- Two enumerations of one host tree. -/
def SameTree (first second : Host) : Prop := ∀ q, Shuffled (host_shape first q) (host_shape second q)

section
variable {config : Config} {fs fs₁ fs₂ : Filesystem} {warnings warnings' : List Warning} {first second : Host}

/-- What is read through paths depends on the image, not on the counts in memory. -/
theorem read_back_image {g : Geometry} {v₁ v₂ : Volume} {N₁ : NodeMap} (holds₁ : Holds g v₁ fs₁) (consistent₁ : Consistent g v₁ N₁)
    (holds₂ : Holds g v₂ fs₂) (same : fs₁.reader = fs₂.reader) {path : List UInt8}
    (proper : ∀ name ∈ components path, Proper name) : read_back fs₁ path = read_back fs₂ path := by
  have spared : Spared g v₁ { v₁ with superblock := fs₂.superblock, gdt := fs₂.gdt } N₁ :=
    ⟨fun _ _ => rfl, fun _ _ _ _ _ => rfl, fun _ set => set, fun _ set => set, fun _ _ _ _ _ => rfl⟩
  have holds : Holds g { v₁ with superblock := fs₂.superblock, gdt := fs₂.gdt } fs₂ := by
    obtain ⟨-, -, -, size, slots, blocks, inode_bits, block_bits⟩ := holds₁
    rw [same] at size slots blocks inode_bits block_bits
    exact ⟨rfl, rfl, holds₂.static', size, slots, blocks, inode_bits, block_bits⟩
  rw [read_back_eq holds₁ consistent₁ proper, read_back_eq holds (consistent₁.spared spared) proper]
  rfl

/-- The same order of what is copied gives the same image. -/
theorem image_of_order (same : SameOrder first second) (named : WellNamed first) (named' : WellNamed second)
    (ran : (populate_from_host_tree first).run ⟨fs, []⟩ = .ok () ⟨fs₁, warnings⟩)
    (ran' : (populate_from_host_tree second).run ⟨fs, []⟩ = .ok () ⟨fs₂, warnings'⟩) :
    fs₁ = fs₂ := by
  obtain ⟨entries, rfl, made, -⟩ := populate_calls ran
  obtain ⟨entries', rfl, made', -⟩ := populate_calls ran'
  have paired : List.Forall₂ Paired [(entries, [])] [(entries', [])] := .cons ⟨rfl, same, named, named'⟩ .nil
  have calls := items_paired paired (Nat.le_refl _) (Nat.le_refl _)
  simp only [dirs_of, Nat.add_zero] at calls
  rw [calls, made'] at made
  exact (Option.some.inj made).symm
/-- The same image has been copied in the same order. -/
theorem order_of_image (contained : Contained config) (opened : Opened config fs) (named : WellNamed first)
    (named' : WellNamed second) (storable : ∀ host ∈ [first, second], ∀ q bytes, host_shape host q = some (.file bytes) →
      Storable config.block_size.toNat (div_ceil bytes.size config.block_size.toNat))
    (ran : (populate_from_host_tree first).run ⟨fs, []⟩ = .ok () ⟨fs₁, warnings⟩)
    (ran' : (populate_from_host_tree second).run ⟨fs, []⟩ = .ok () ⟨fs₂, warnings'⟩)
    (same : fs₁.reader = fs₂.reader) : SameOrder first second := by
  obtain ⟨entries, rfl, made, -⟩ := populate_calls ran
  obtain ⟨entries', rfl, made', -⟩ := populate_calls ran'
  obtain ⟨layout, usable⟩ := usable_of_opened contained opened
  obtain ⟨image, fs₀, g, formatted, opened₀, fitting, holds, consistent⟩ := start_ok usable
  rw [← opened.unique ⟨image, formatted, opened₀⟩] at holds consistent
  rw [← fitting.block_size] at storable
  obtain ⟨v₁, N₁, copied⟩ := copied_run (copied_fresh holds consistent)
    (fit_items named (Nat.le_refl _) (storable _ (List.mem_cons_self ..))) made
  obtain ⟨v₂, N₂, copied'⟩ := copied_run (copied_fresh holds consistent)
    (fit_items named' (Nat.le_refl _) (storable _ (List.mem_cons_of_mem _ (List.mem_singleton_self _)))) made'
  intro q
  -- A path that is no path of names shows nothing in either tree.
  by_cases proper : ∀ name ∈ q, Proper name
  · have spelling := components_path_of fun name member => component_of_proper (proper name member)
    have readable : ∀ name ∈ components (path_of q), Proper name := by rw [spelling]; exact proper
    have read := read_back_image copied.holds copied.consistent copied'.holds same readable
    rw [read_back_eq copied.holds copied.consistent readable, read_back_eq copied'.holds copied'.consistent readable,
      copied.same, copied'.same, List.nil_append, List.nil_append, built_items named (Nat.le_refl _),
      built_items named' (Nat.le_refl _), spelling] at read
    exact read
  · have nowhere : ∀ {host : Host}, WellNamed host → host_shape host q = none := by
      intro host named
      cases there : host_at host q with
      | none => rw [host_shape, there, Option.bind_none]
      | some inner => exact absurd (proper_host named there) proper
    rw [nowhere named, nowhere named']
end

/-! ### Trees of links -/

/-- Links under these names, each to the same target. -/
def linked (target : Bytes) (names : List (List UInt8)) : Entries := names.map fun name => (name, .symlink target)

section
variable {target : Bytes} {names : List (List UInt8)} {entries : Entries}

theorem kept_linked (short : (target_bytes target).size ≤ I_BLOCK_LEN) (text : ∀ name ∈ names, to_str name = some name) :
    kept (linked target names) = linked target names := by
  rw [kept, List.filter_eq_self]
  intro e member
  obtain ⟨name, inside, rfl⟩ := List.mem_map.mp member
  simp [text name inside, Host.copied, short]
theorem items_linked {fuel : Nat} (whole : kept entries = linked target names) :
    (items (fuel + 1) [(entries, [])]).map request = links (target_bytes target) names := by
  have leaf : pushed [] entries = [] := by
    rw [pushed, whole, List.filterMap_eq_nil_iff]
    intro e member
    obtain ⟨name, -, rfl⟩ := List.mem_map.mp (List.mem_reverse.mp member)
    rfl
  have rest : items fuel [] = [] := by cases fuel <;> rfl
  rw [items, leaf, List.nil_append, rest, List.append_nil, whole, linked, List.map_map, List.map_map, links]
  apply List.map_congr_left
  intro name member
  simp [item, request, path_of]
theorem copy_links {fs fs' : Filesystem} (whole : kept entries = linked target names)
    (made : after (links (target_bytes target) names) fs = some fs') :
    ∃ warnings, (populate_from_host_tree (.dir entries)).run ⟨fs, []⟩ = .ok () ⟨fs', warnings⟩ := by
  refine populate_runs ?_
  obtain ⟨fuel, same⟩ := Nat.exists_eq_succ_of_ne_zero (Nat.ne_of_gt (dirs_pos entries))
  rw [same, items_linked whole, made]
theorem host_linked (whole : kept entries = linked target names) (q : List (List UInt8)) :
    q = [] ∨ (∃ name, q = [name] ∧ name ∈ names ∧ host_at (.dir entries) q = some (.symlink target)) ∨
      host_at (.dir entries) q = none := by
  cases q with
  | nil => exact .inl rfl
  | cons name q =>
    refine .inr ?_
    rw [host_at_cons, whole]
    cases hit : (linked target names).find? (·.1 == name) with
    | none => exact .inr rfl
    | some e =>
      obtain ⟨name', inside, same⟩ := List.mem_map.mp (List.mem_of_find?_eq_some hit)
      have named : e.1 = name := by simpa using List.find?_some hit
      subst same
      cases q with
      | nil => exact .inl ⟨name, rfl, named ▸ inside, rfl⟩
      | cons => exact .inr rfl
theorem wellNamed_linked (whole : kept entries = linked target names) (nodup : names.Nodup) (proper : ∀ name ∈ names, Proper name) :
    WellNamed (.dir entries) := by
  intro q found there
  rcases host_linked whole q with rfl | ⟨name, rfl, -, other⟩ | none
  · cases there
    rw [whole, linked, List.map_map]
    refine ⟨by simpa [Function.comp_def] using nodup, fun e member => ?_⟩
    obtain ⟨name, inside, rfl⟩ := List.mem_map.mp member
    exact proper name inside
  · rw [other] at there
    cases there
  · rw [none] at there
    cases there
theorem no_files_linked (whole : kept entries = linked target names) (q : List (List UInt8)) (bytes : Bytes) :
    host_shape (.dir entries) q ≠ some (.file bytes) := by
  rw [host_shape]
  rcases host_linked whole q with rfl | ⟨name, rfl, -, there⟩ | none
  · rw [host_at_nil]
    simp [Host.shape]
  · rw [there]
    simp [Host.shape]
  · rw [none]
    simp
end

/-- Links can be copied to a fresh image. -/
theorem fresh_links (names : List (List UInt8)) (few : names.length ≤ 22) (nodup : names.Nodup)
    (each : ∀ name ∈ names, Proper name ∧ name.length ≤ 255) (room : taken names ≤ 4072) :
    ∃ fs', after (links (ofList [116]) names) (fresh Config.default defaultLayout) = some fs' := by
  have laid : Layout.from_config Config.default = .ok defaultLayout := rfl
  obtain ⟨g, v, whole, -, -, row⟩ := fresh_row default_small laid
  have inodes : g.per_group = 32 := whole.per_group
  have text : (ofList [116]).size ≠ 0 := by decide
  obtain ⟨fs', v', N', made, -⟩ := row.links whole text (by decide) (by rw [List.length_nil, inodes]; omega) each
    (by simpa using nodup) room
  exact ⟨fs', made⟩

/-! ### The main results -/

section
variable {config : Config} {fs fs' fs₁ fs₂ : Filesystem} {warnings warnings' : List Warning} {host first second : Host}

/-- A target that is text is stored as it is. -/
theorem target_text {target : Bytes} (text : (to_str target.toList).isSome) : target_bytes target = target := by
  obtain ⟨found, spelled⟩ := Option.isSome_iff_exists.mp text
  rw [target_bytes, lossy_text spelled, ofList_toList]

/-- A copy to an image with blocks of four kilobytes that returns reads back as
    the copied part of the host tree when no file has 2^32 blocks, and not when
    some file has more. A link to text is copied as it is, unless it is too long. -/
theorem populate_replicates (four : config.block_size.toNat = 4096) (one : groups config = 1) (opened : Opened config fs)
    (named : WellNamed host) (ran : (populate_from_host_tree host).run ⟨fs, []⟩ = .ok () ⟨fs', warnings⟩) :
    (Limited 4096 4294967295 host → Replicates fs' host) ∧ (Replicates fs' host → Limited 4096 4294967296 host) ∧
      ∀ target : Bytes, (to_str target.toList).isSome →
        (Host.symlink target).shape = some (.link target) ∧ ((Host.symlink target).copied = true ↔ target.size ≤ I_BLOCK_LEN) := by
  have contained : Contained config := fun _ => by rw [four, one]; decide
  refine ⟨?_, ?_, fun target text => ?_⟩
  · intro limited
    refine replicates_of_storable contained opened named (fun q bytes found => .inr ⟨by omega, ?_⟩) ran
    have few := limited q bytes found
    rw [four]
    omega
  · intro replicates q bytes found
    have limited := limited_of_replicates contained opened named ran replicates q bytes found
    rwa [four] at limited
  · rw [Host.shape, Host.copied, target_text text]
    exact ⟨rfl, decide_eq_true_iff⟩
/-- A tree of two links is copied and read back. -/
theorem links_replicated : ∃ fs' warnings, (populate_from_host_tree (.dir (linked (ofList [116]) [[97], [98]]))).run
    ⟨fresh Config.default defaultLayout, []⟩ = .ok () ⟨fs', warnings⟩ ∧ Replicates fs' (.dir (linked (ofList [116]) [[97], [98]])) := by
  obtain ⟨fs', made⟩ := fresh_links [[97], [98]] (by decide) (by decide) (by decide) (by decide)
  have whole : kept (linked (ofList [116]) [[97], [98]]) = linked (ofList [116]) [[97], [98]] :=
    kept_linked (by decide) (by decide)
  obtain ⟨warnings, ran⟩ := copy_links whole made
  have named := wellNamed_linked whole (by decide) (by decide)
  exact ⟨fs', warnings, ran, (populate_replicates rfl rfl default_opened named ran).1 fun q bytes found =>
    absurd found (no_files_linked whole q bytes)⟩

/-- Two copies of a tree give the same image when what is copied is enumerated in
    the same order, and only then. -/
theorem populate_order (opened : Opened config fs) (named : WellNamed first) (named' : WellNamed second)
    (ran : (populate_from_host_tree first).run ⟨fs, []⟩ = .ok () ⟨fs₁, warnings⟩)
    (ran' : (populate_from_host_tree second).run ⟨fs, []⟩ = .ok () ⟨fs₂, warnings'⟩) :
    (SameOrder first second → fs₁.reader = fs₂.reader) ∧
      (Contained config → (∀ host ∈ [first, second], ∀ q bytes, host_shape host q = some (.file bytes) →
        Storable config.block_size.toNat (div_ceil bytes.size config.block_size.toNat)) →
        fs₁.reader = fs₂.reader → SameOrder first second) :=
  ⟨fun same => congrArg Filesystem.reader (image_of_order same named named' ran ran'),
    fun contained storable => order_of_image contained opened named named' storable ran ran'⟩
/-- Where a special file stands in the enumeration makes no difference. -/
theorem special_order : ∃ fs₁ fs₂ warnings warnings',
    (populate_from_host_tree (.dir [([115], .special [112]), ([97], .symlink (ofList [116]))])).run
      ⟨fresh Config.default defaultLayout, []⟩ = .ok () ⟨fs₁, warnings⟩ ∧
    (populate_from_host_tree (.dir [([97], .symlink (ofList [116])), ([115], .special [112])])).run
      ⟨fresh Config.default defaultLayout, []⟩ = .ok () ⟨fs₂, warnings'⟩ ∧ fs₁.reader = fs₂.reader := by
  obtain ⟨fs', made⟩ := fresh_links [[97]] (by decide) (by decide) (by decide) (by decide)
  have whole : kept [([115], .special [112]), ([97], .symlink (ofList [116]))] = linked (ofList [116]) [[97]] := by
    simp [kept, linked, Host.copied, show to_str [97] = some [97] from rfl, show (target_bytes (ofList [116])).size ≤ I_BLOCK_LEN by decide]
  have whole' : kept [([97], .symlink (ofList [116])), ([115], .special [112])] = linked (ofList [116]) [[97]] := by
    simp [kept, linked, Host.copied, show to_str [97] = some [97] from rfl, show (target_bytes (ofList [116])).size ≤ I_BLOCK_LEN by decide]
  obtain ⟨warnings, ran⟩ := copy_links whole made
  obtain ⟨warnings', ran'⟩ := copy_links whole' made
  have named := wellNamed_linked whole (by decide) (by decide)
  have named' := wellNamed_linked whole' (by decide) (by decide)
  refine ⟨fs', fs', warnings, warnings', ran, ran', (populate_order default_opened named named' ran ran').1 fun q => ?_⟩
  rw [host_shape, host_shape]
  cases q with
  | nil => rw [host_at_nil, host_at_nil, Option.bind_some, Option.bind_some, Host.shape, Host.shape, whole, whole']
  | cons name q => rw [host_at_cons, host_at_cons, whole, whole']

/-- Two links enumerated in two orders give two images. -/
theorem link_order : ∃ fs₁ fs₂ warnings warnings',
    SameTree (.dir (linked (ofList [116]) [[97], [98]])) (.dir (linked (ofList [116]) [[98], [97]])) ∧
    (populate_from_host_tree (.dir (linked (ofList [116]) [[97], [98]]))).run
      ⟨fresh Config.default defaultLayout, []⟩ = .ok () ⟨fs₁, warnings⟩ ∧
    (populate_from_host_tree (.dir (linked (ofList [116]) [[98], [97]]))).run
      ⟨fresh Config.default defaultLayout, []⟩ = .ok () ⟨fs₂, warnings'⟩ ∧
    fs₁.reader ≠ fs₂.reader := by
  obtain ⟨fs₁, made⟩ := fresh_links [[97], [98]] (by decide) (by decide) (by decide) (by decide)
  obtain ⟨fs₂, made'⟩ := fresh_links [[98], [97]] (by decide) (by decide) (by decide) (by decide)
  have whole : kept (linked (ofList [116]) [[97], [98]]) = linked (ofList [116]) [[97], [98]] :=
    kept_linked (by decide) (by decide)
  have whole' : kept (linked (ofList [116]) [[98], [97]]) = linked (ofList [116]) [[98], [97]] :=
    kept_linked (by decide) (by decide)
  obtain ⟨warnings, ran⟩ := copy_links whole made
  obtain ⟨warnings', ran'⟩ := copy_links whole' made'
  refine ⟨fs₁, fs₂, warnings, warnings', fun q => ?_, ran, ran', fun same => ?_⟩
  · rw [host_shape, host_shape]
    cases q with
    | nil =>
      rw [host_at_nil, host_at_nil, Option.bind_some, Option.bind_some, Host.shape, Host.shape, whole, whole']
      exact .dirs (by decide)
    | cons name q =>
      rw [host_at_cons, host_at_cons, whole, whole']
      have found : (linked (ofList [116]) [[97], [98]]).find? (·.1 == name) = (linked (ofList [116]) [[98], [97]]).find? (·.1 == name) := by
        by_cases a : name = [97]
        · subst a
          rfl
        · by_cases b : name = [98]
          · subst b
            rfl
          · have other : ¬ [97] = name := fun same => a same.symm
            have other' : ¬ [98] = name := fun same => b same.symm
            simp [linked, other, other']
      rw [found]
      exact .same _
  · have named := wellNamed_linked whole (by decide) (by decide)
    have named' := wellNamed_linked whole' (by decide) (by decide)
    have storable : ∀ host ∈ [Host.dir (linked (ofList [116]) [[97], [98]]), Host.dir (linked (ofList [116]) [[98], [97]])],
        ∀ q bytes, host_shape host q = some (.file bytes) →
          Storable Config.default.block_size.toNat (div_ceil bytes.size Config.default.block_size.toNat) := by
      intro host member q bytes found
      rcases List.mem_cons.mp member with rfl | later
      · exact absurd found (no_files_linked whole q bytes)
      · rw [List.mem_singleton.mp later] at found
        exact absurd found (no_files_linked whole' q bytes)
    have order := order_of_image (fun _ => by decide) default_opened named named' storable ran ran' same []
    rw [host_shape_nil, host_shape_nil, Host.shape, Host.shape, whole, whole'] at order
    revert order
    simp [linked]
end

end Justext4.CopiedTree
