import DialF.Bundle.Imported

/-!
# What an import leaves

An import that fails before it writes leaves everything as it was. One that succeeds has put the new
config where the path of the config leads, and what was there is found under a name that was free;
all other files are as they were (`Installed`).
-/

set_option autoImplicit false

namespace DialF.Bundle

open DialF.Lib DialF.Jobs

/-! ## Writing a file -/

section Writing

variable {nodes : Nodes Name Bytes} {links : Nat} {t : Target} {bytes : Bytes}

/-- **A file that has been written** is where its path leads to, and no other file has changed. -/
theorem writeTarget_spec (h : nodes.Wf) (hdone : (writeTarget links nodes t bytes).2 = true) :
    ∃ loc k, (writeTarget links nodes t bytes).1.Wf ∧
      Grows nodes (writeTarget links nodes t bytes).1 ∧
      find (writeTarget links nodes t bytes).1 links [] t.path = .found loc k ∧
      (writeTarget links nodes t bytes).1 loc = some (.file bytes) ∧
      ∀ l content, l ≠ loc → nodes l = some (.file content) →
        (writeTarget links nodes t bytes).1 l = some (.file content) := by
  rw [writeTarget] at hdone ⊢
  by_cases hlanding : ∃ loc, landing nodes links [] t.dir t.name = some loc ∧ nodes loc ≠ some .dir
  · obtain ⟨loc, hloc, hfree⟩ := hlanding
    obtain ⟨made, hmade, hwrite, hwf, hgrows, k, hfind⟩ :=
      createFile_of_landing h h.root hloc hfree bytes
    rw [hmade]
    simp only
    rw [Target.path, hwrite]
    refine ⟨loc, k, hwf, hgrows, hfind, placed_self _ _ _, ?_⟩
    intro l content hne hl
    exact (placed_eq_file_iff hne).2 hl
  · -- nowhere to put it
    exfalso
    cases hmade : createDirAll nodes links [] t.dir with
    | none => simp [hmade] at hdone
    | some made =>
        have hdir : ∀ l, landing nodes links [] t.dir t.name = some l → nodes l = some .dir := by
          intro l hl
          by_contra hne
          exact hlanding ⟨l, hl, hne⟩
        obtain ⟨-, hnone⟩ := createFile_of_no_landing h h.root hdir hmade bytes
        rw [hmade] at hdone
        simp only at hdone
        rw [Target.path, hnone] at hdone
        simp at hdone

end Writing

/-! ## Backups -/

section Backup

variable {d : Disk} {t : Target} {stamp text : Str}

theorem backup_injective (t : Target) (stamp : Str) :
    Function.Injective fun n => (t.backup stamp n).name := by
  intro n m h
  have hend : (if n = 0 then [] else '-' :: numeral n) =
      (if m = 0 then [] else '-' :: numeral m : Str) := by
    have hext := (List.cons.inj (List.append_cancel_left h)).2
    exact List.append_cancel_left hext
  by_cases hn : n = 0
  · by_cases hm : m = 0
    · rw [hn, hm]
    · rw [if_pos hn, if_neg hm] at hend
      exact absurd hend (by simp)
  · by_cases hm : m = 0
    · rw [if_neg hn, if_pos hm] at hend
      exact absurd hend (by simp)
    · rw [if_neg hn, if_neg hm] at hend
      exact numeral_injective (List.cons.inj hend).2

/-- What a path leads to has the last name of the path, or a link of that name leads there. -/
theorem mem_names_of_canonicalize {dir : List Name} {n : Name}
    (h : (d.canonicalize (dir.map .into ++ [.into n])).isSome) :
    n ∈ d.items.filterMap fun item => item.1.head? := by
  obtain ⟨loc, hloc⟩ := Option.isSome_iff_exists.1 h
  rw [Disk.canonicalize, find_append d.nodes_wf d.nodes_wf.root] at hloc
  have hsound := find_sound d.nodes_wf d.nodes_wf.root d.links (dir.map .into)
  cases hfind : find d.nodes d.links [] (dir.map .into) with
  | found l k =>
      rw [hfind] at hloc hsound
      rcases hsound with hdir | ⟨content, hfile⟩
      · rw [Place.onward_dir hdir] at hloc
        have hthere : d.nodes (n :: l) ≠ none := by
          intro hnone
          simp [find_into_none hnone] at hloc
        obtain ⟨node, hitem⟩ := Disk.mem_items_of_nodes hthere
        exact List.mem_filterMap.2 ⟨_, hitem, rfl⟩
      · simp [Place.onward, hfile] at hloc
  | vacant l => simp [hfind, Place.onward] at hloc
  | nowhere => simp [hfind, Place.onward] at hloc

/-- **A backup gets a name that nothing has.** -/
theorem canonicalize_freeBackup (d : Disk) (t : Target) (stamp : Str) :
    d.canonicalize (freeBackup d t stamp).path = none := by
  obtain ⟨hfree, -⟩ := firstFree_spec
    (fun name => (d.canonicalize (t.dir.map .into ++ [.into name])).isSome)
    (backup_injective t stamp) (fun n hn => mem_names_of_canonicalize hn)
    (List.length_filterMap_le _ _) 0
  exact Option.not_isSome_iff_eq_none.1 (Bool.eq_false_iff.1 hfree)

/-- What an installation leaves: the config at its place, what was there at a place where nothing
was, and all other files. -/
structure Installed (d : Disk) (t : Target) (text : Str) (nodes : Nodes Name Bytes)
    (backup : Option Target) : Prop where
  wf : nodes.Wf
  grows : Grows d.nodes nodes
  config : ∃ loc k, find nodes d.links [] t.path = .found loc k ∧
    nodes loc = some (.file (utf8 text)) ∧
    ∀ l content, l ≠ loc → d.nodes l = some (.file content) → nodes l = some (.file content)
  new : backup = none → d.canonicalize t.path = none
  kept : ∀ b, backup = some b → d.canonicalize b.path = none ∧ ∃ old loc k,
    d.fileAt t.path = some old ∧ find nodes d.links [] b.path = .found loc k ∧
      nodes loc = some (.file old.2)

theorem fileAt_eq_some {d : Disk} {path : List (Move Name)} {old : List Name × Bytes}
    (h : d.fileAt path = some old) :
    (∃ k, find d.nodes d.links [] path = .found old.1 k) ∧ d.nodes old.1 = some (.file old.2) := by
  obtain ⟨loc, hloc, hfile⟩ := Option.bind_eq_some_iff.1 h
  split at hfile
  · rename_i bytes hbytes
    obtain rfl := Option.some.inj hfile
    refine ⟨?_, hbytes⟩
    rw [Disk.canonicalize] at hloc
    split at hloc
    · rename_i l k hfind
      obtain rfl := Option.some.inj hloc
      exact ⟨k, hfind⟩
    · simp at hloc
  · simp at hfile

/-- **A backup** is put where there was nothing, and all else stays. -/
theorem added_of_createFile {path : List (Move Name)} {bytes : Bytes} {kept : Nodes Name Bytes}
    (hfree : d.canonicalize path = none)
    (hkept : createFile d.nodes bytes (find d.nodes d.links [] path) = some kept) :
    kept.Wf ∧ Grows d.nodes kept ∧
      (∀ l content, d.nodes l = some (.file content) → kept l = some (.file content)) ∧
      ∃ loc k, d.nodes loc = none ∧ kept loc = some (.file bytes) ∧
        find kept d.links [] path = .found loc k := by
  have hsound := find_sound d.nodes_wf d.nodes_wf.root d.links path
  rw [Disk.canonicalize] at hfree
  cases hplace : find d.nodes d.links [] path with
  | found l k => simp [hplace] at hfree
  | nowhere => simp [hplace, createFile] at hkept
  | vacant l =>
      rw [hplace] at hsound hkept
      obtain ⟨hnone, n, parent, rfl, hparent⟩ := hsound
      obtain rfl := Option.some.inj hkept
      obtain ⟨k, hfind⟩ := find_add_of_vacant hnone bytes hplace
      refine ⟨d.nodes_wf.add hparent (by rw [hnone]; simp), grows_add (Or.inl hnone), ?_,
        _, k, hnone, add_self _ _ _, hfind⟩
      intro l content hl
      rw [add_of_ne]
      · exact hl
      · rintro rfl
        exact absurd (hl.symm.trans hnone) (by simp)

/-- **An installation that succeeds.** -/
theorem installed_of_install {backup : Option Target} {nodes : Nodes Name Bytes}
    (h : install d t stamp text = (nodes, .ok backup)) : Installed d t text nodes backup := by
  rw [install] at h
  split at h
  · split at h
    · exact absurd (Prod.mk.inj h).2 (by simp)
    · rename_i old hold
      obtain ⟨⟨kold, hfound⟩, hfile⟩ := fileAt_eq_some hold
      have hfree := canonicalize_freeBackup d t stamp
      simp only at h
      split at h
      · exact absurd (Prod.mk.inj h).2 (by simp)
      · rename_i kept hkept
        obtain ⟨rfl, hdone⟩ := Prod.mk.inj h
        split at hdone
        · rename_i hwritten
          obtain rfl := Except.ok.inj hdone
          obtain ⟨hwfKept, hgrowKept, hfiles, lb, kb, hnone, hbackup, hfindb⟩ :=
            added_of_createFile hfree hkept
          obtain ⟨loc, k, hwf, hgrows, hfind, hconfig, hother⟩ := writeTarget_spec hwfKept hwritten
          -- the config is where it was
          have hsame : loc = old.1 := by
            have hstill := find_of_grows (hgrowKept.trans hgrows) hfound
            exact (Place.found.inj (hfind.symm.trans hstill)).1
          refine ⟨hwf, hgrowKept.trans hgrows, ⟨loc, k, hfind, hconfig, ?_⟩, by simp, ?_⟩
          · intro l content hne hl
            exact hother l content hne (hfiles l content hl)
          · intro b hb
            obtain rfl := Option.some.inj hb
            refine ⟨hfree, old, lb, kb, hold, find_of_grows hgrows hfindb, ?_⟩
            apply hother _ _ _ hbackup
            intro heq
            rw [heq, hsame, hfile] at hnone
            exact absurd hnone (by simp)
        · simp at hdone
  · rename_i hnew
    obtain ⟨rfl, hdone⟩ := Prod.mk.inj h
    split at hdone
    · rename_i hwritten
      obtain rfl := Except.ok.inj hdone
      obtain ⟨loc, k, hwf, hgrows, hfind, hconfig, hother⟩ := writeTarget_spec d.nodes_wf hwritten
      exact ⟨hwf, hgrows, ⟨loc, k, hfind, hconfig, hother⟩,
        fun _ => Option.not_isSome_iff_eq_none.1 hnew, by simp⟩
    · simp at hdone

end Backup

/-! ## The whole import -/

section Import

variable {m : Machine} {fmt : ImportFormats} {d : Disk} {folder : List (Move Name)} {t : Target}
  {overrideExisting : Bool} {stamp : Str} {nodes : Nodes Name Bytes} {report : ImportReport}

/-- What an import that succeeds has read, and what it has installed. -/
structure Imports (m : Machine) (fmt : ImportFormats) (d : Disk) (t : Target) (stamp : Str)
    (root : List Name) (text new : Str) : Prop where
  dir : d.nodes root = some .dir
  config : ∃ target bytes, d.fileAt ((below root [configName]).map .into) = some (target, bytes) ∧
    fromUtf8 bytes = some text
  parsed : ∃ cfg warnings, fmt.parseImported text = some cfg ∧
    importText m fmt d root.reverse (existingKey fmt.toFormats (d.readToString t.path)) cfg text =
      .ok (new, warnings)

/-- **An import that succeeds** has installed what becomes of the config of the folder. -/
theorem imports_of_importTo
    (h : importTo m fmt d folder t overrideExisting stamp = (nodes, .ok report)) :
    d.canonicalize folder = some report.folder ∧ ∃ text new,
      Imports m fmt d t stamp report.folder text new ∧ Installed d t new nodes report.backup ∧
      (overrideExisting = false → d.canonicalize t.path = none) := by
  rw [importTo] at h
  split at h
  · exact absurd (Prod.mk.inj h).2 (by simp)
  · rename_i root hroot
    split at h
    · rename_i hdir
      split at h
      · exact absurd (Prod.mk.inj h).2 (by simp)
      · rename_i config hconfig
        split at h
        · exact absurd (Prod.mk.inj h).2 (by simp)
        · rename_i text htext
          split at h
          · exact absurd (Prod.mk.inj h).2 (by simp)
          · rename_i cfg hcfg
            split at h
            · exact absurd (Prod.mk.inj h).2 (by simp)
            · exact absurd (Prod.mk.inj h).2 (by simp)
            · split at h
              · exact absurd (Prod.mk.inj h).2 (by simp)
              · rename_i hoverride
                simp only at h
                split at h
                · exact absurd (Prod.mk.inj h).2 (by simp)
                · rename_i new warnings hnew
                  obtain ⟨hnodes, hreport⟩ := Prod.mk.inj h
                  obtain ⟨bak, hbak, rfl⟩ := exists_of_map_ok hreport
                  refine ⟨hroot, text, new, ⟨hdir, ⟨config.1, config.2, hconfig, htext⟩,
                    ⟨cfg, warnings, hcfg, hnew⟩⟩, installed_of_install (Prod.ext hnodes hbak), ?_⟩
                  intro hnot
                  rw [hnot] at hoverride
                  exact Option.not_isSome_iff_eq_none.1 (by simpa using hoverride)
    · exact absurd (Prod.mk.inj h).2 (by simp)

end Import

end DialF.Bundle
