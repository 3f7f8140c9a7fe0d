import DialF.Lib.FileTree

/-!
# Putting files into a tree

Making the directories that a path lacks (`createDirAll`), and then a file at its end (`createFile`),
is putting the file at the landing place of the path (`landing`), with directories at all the places
above it where there is nothing (`placed`); `install_eq` is the result.
-/

set_option autoImplicit false

namespace DialF.Lib

universe u v

variable {ν : Type u} {β : Type v}

/-- The directory that a name leads to. -/
def enter (nodes : Nodes ν β) (links : Nat) (loc : List ν) (n : ν) : Option (List ν × Nat) :=
  match find nodes links loc [.into n] with
  | .found loc links =>
      match nodes loc with
      | some .dir => some (loc, links)
      | _ => none
  | _ => none

/-- Where a file would be, behind the directories of its path: in the last one of them; or where the
rest of the path would be made. -/
def landing (nodes : Nodes ν β) (links : Nat) (loc : List ν) : List ν → ν → Option (List ν)
  | [], n =>
      match find nodes links loc [.into n] with
      | .found loc _ => some loc
      | .vacant loc => some loc
      | .nowhere => none
  | m :: names, n =>
      match nodes (m :: loc) with
      | none => some (n :: (names.reverse ++ m :: loc))
      | some _ =>
          match enter nodes links loc m with
          | some (loc, links) => landing nodes links loc names n
          | none => none

section Walking

variable {nodes : Nodes ν β} {links links' : Nat} {loc loc' : List ν} {n : ν} {names : List ν}

theorem enter_eq_some_iff :
    enter nodes links loc n = some (loc', links') ↔
      find nodes links loc [.into n] = .found loc' links' ∧ nodes loc' = some .dir := by
  rw [enter]
  split
  · rename_i l k hfind
    split
    · rename_i hdir
      constructor
      · rintro h
        obtain ⟨rfl, rfl⟩ := Prod.mk.inj (Option.some.inj h)
        exact ⟨hfind, hdir⟩
      · rintro ⟨h, -⟩
        obtain ⟨rfl, rfl⟩ := Place.found.inj (hfind.symm.trans h)
        rfl
    · rename_i hdir
      refine iff_of_false (by simp) ?_
      rintro ⟨h, h'⟩
      obtain ⟨rfl, rfl⟩ := Place.found.inj (hfind.symm.trans h)
      exact hdir h'
  · rename_i hfind
    exact iff_of_false (by simp) fun h => hfind _ _ h.1

/-- What is above a directory is one. -/
theorem Nodes.Wf.above (h : nodes.Wf) (hloc : nodes loc ≠ none) {l : List ν} (hl : l <:+ loc)
    (hne : l ≠ loc) : nodes l = some .dir := by
  induction loc with
  | nil => exact absurd (List.suffix_nil.1 hl) hne
  | cons m loc ih =>
      have hparent := h.parent hloc
      rcases List.suffix_cons_iff.1 hl with heq | hsuffix
      · exact absurd heq hne
      · by_cases hsame : l = loc
        · rw [hsame]
          exact hparent
        · exact ih (by rw [hparent]; simp) hsuffix hsame

theorem none_of_none (h : nodes.Wf) (hn : nodes loc = none) (m : ν) : nodes (m :: loc) = none := by
  by_contra hm
  exact absurd ((h.parent hm).symm.trans hn) (by simp)

/-- A path through directories. -/
theorem find_dirs (hdirs : ∀ l, l <:+ names.reverse ++ loc → nodes l = some .dir) :
    find nodes links loc (names.map .into) = .found (names.reverse ++ loc) links := by
  induction names generalizing loc with
  | nil => simp
  | cons n names ih =>
      have hn : nodes (n :: loc) = some .dir := by
        apply hdirs
        rw [List.reverse_cons, List.append_assoc, List.singleton_append]
        exact List.suffix_append _ _
      rw [List.map_cons, find_into_dir hn, List.reverse_cons, List.append_assoc,
        List.singleton_append]
      apply ih
      intro l hl
      apply hdirs
      rwa [List.reverse_cons, List.append_assoc, List.singleton_append]

end Walking

/-! ## What is put into a tree -/

variable [DecidableEq ν]

/-- Directories at a location, and above it, where there is nothing. -/
def withDirs (nodes : Nodes ν β) (loc : List ν) : Nodes ν β :=
  fun l => if l <:+ loc ∧ nodes l = none then some .dir else nodes l

/-- A file, in directories. -/
def placed (nodes : Nodes ν β) (loc : List ν) (content : β) : Nodes ν β :=
  add (withDirs nodes loc.tail) loc (.file content)

/-- Make the directories of a path where there are none. -/
def createDirAll (nodes : Nodes ν β) (links : Nat) (loc : List ν) : List ν → Option (Nodes ν β)
  | [] => some nodes
  | n :: names =>
      match nodes (n :: loc) with
      | none => createDirAll (add nodes (n :: loc) .dir) links (n :: loc) names
      | some _ =>
          match enter nodes links loc n with
          | some (loc, links) => createDirAll nodes links loc names
          | none => none

/-- Open a file to write it, and write it: what was in it is lost. -/
def createFile (nodes : Nodes ν β) (content : β) : Place ν → Option (Nodes ν β)
  | .found loc _ =>
      match nodes loc with
      | some (.file _) => some (add nodes loc (.file content))
      | _ => none
  | .vacant loc => some (add nodes loc (.file content))
  | .nowhere => none

section Placing

variable {nodes made : Nodes ν β} {links links' : Nat} {loc loc' : List ν} {n : ν} {names : List ν}
  {content : β}

/-- Nothing is missing above what there is. -/
theorem withDirs_of_ne_none (h : nodes.Wf) (hloc : nodes loc ≠ none) : withDirs nodes loc = nodes := by
  funext l
  rw [withDirs, if_neg]
  rintro ⟨hl, hnone⟩
  by_cases heq : l = loc
  · exact hloc (heq ▸ hnone)
  · exact absurd ((h.above hloc hl heq).symm.trans hnone) (by simp)

theorem withDirs_add (hn : nodes loc = none) {loc' : List ν} (h : loc <:+ loc') :
    withDirs (add nodes loc .dir) loc' = withDirs nodes loc' := by
  funext l
  by_cases heq : l = loc
  · subst heq
    rw [withDirs, withDirs, if_neg (by simp), add_self, if_pos ⟨h, hn⟩]
  · rw [withDirs, withDirs, add_of_ne heq]

theorem withDirs_cons (h : nodes.Wf) (hloc : nodes loc = some .dir) (hn : nodes (n :: loc) = none) :
    withDirs nodes (n :: loc) = add nodes (n :: loc) .dir := by
  rw [← withDirs_add hn List.suffix_rfl]
  apply withDirs_of_ne_none (h.add hloc (by rw [hn]; simp))
  rw [add_self]
  simp

/-- Where there is nothing, all of the path is made. -/
theorem createDirAll_of_none (h : nodes.Wf) (hloc : nodes loc = some .dir)
    (hn : nodes (n :: loc) = none) (links : Nat) (names : List ν) :
    createDirAll nodes links loc (n :: names) = some (withDirs nodes (names.reverse ++ n :: loc)) := by
  induction names generalizing nodes loc n with
  | nil =>
      rw [createDirAll, hn]
      show some (add nodes (n :: loc) .dir) = _
      rw [List.reverse_nil, List.nil_append, withDirs_cons h hloc hn]
  | cons m names ih =>
      have hwf : (add nodes (n :: loc) .dir).Wf := h.add hloc (by rw [hn]; simp)
      have hm : add nodes (n :: loc) .dir (m :: n :: loc) = none := by
        rw [add_of_ne]
        · exact none_of_none h hn m
        · intro heq
          have hlength := congrArg List.length heq
          simp at hlength
      rw [createDirAll, hn]
      show createDirAll (add nodes (n :: loc) .dir) links (n :: loc) (m :: names) = _
      rw [ih hwf (add_self _ _ _) hm, List.reverse_cons, List.append_assoc, List.singleton_append]
      congr 1
      apply withDirs_add hn
      exact ⟨names.reverse ++ [m], by simp⟩

theorem wf_createDirAll (h : nodes.Wf) (hloc : nodes loc = some .dir)
    (hmade : createDirAll nodes links loc names = some made) : made.Wf ∧ Grows nodes made := by
  induction names generalizing nodes loc links with
  | nil =>
      obtain rfl := Option.some.inj hmade
      exact ⟨h, Grows.refl nodes⟩
  | cons n names ih =>
      rw [createDirAll] at hmade
      cases hn : nodes (n :: loc) with
      | none =>
          rw [hn] at hmade
          obtain ⟨hwf, hgrows⟩ := ih (h.add hloc (by rw [hn]; simp)) (add_self _ _ _) hmade
          exact ⟨hwf, (grows_add (Or.inl hn)).trans hgrows⟩
      | some node =>
          rw [hn] at hmade
          cases henter : enter nodes links loc n with
          | none => simp [henter] at hmade
          | some r =>
              rw [henter] at hmade
              exact ih h (enter_eq_some_iff.1 henter).2 hmade

/-- Where the directories cannot be made, a file has nowhere to go. -/
theorem landing_of_createDirAll_none (h : nodes.Wf) (hloc : nodes loc = some .dir)
    (hnone : createDirAll nodes links loc names = none) (n : ν) :
    landing nodes links loc names n = none := by
  induction names generalizing loc links with
  | nil => exact absurd hnone (by simp [createDirAll])
  | cons m names ih =>
      cases hm : nodes (m :: loc) with
      | none => exact absurd hnone (by rw [createDirAll_of_none h hloc hm]; simp)
      | some node =>
          rw [createDirAll, hm] at hnone
          rw [landing, hm]
          cases henter : enter nodes links loc m with
          | none => rfl
          | some r =>
              rw [henter] at hnone
              exact ih (enter_eq_some_iff.1 henter).2 hnone

/-- **What making directories does**: they are all there and nothing has changed, or a path of them
is made to where a file would be. -/
theorem createDirAll_spec (h : nodes.Wf) (hloc : nodes loc = some .dir)
    (hmade : createDirAll nodes links loc names = some made) :
    ∃ dir k, find made links loc (names.map .into) = .found dir k ∧ made dir = some .dir ∧
      ((made = nodes ∧ ∀ n, landing nodes links loc names n = landing nodes k dir [] n) ∨
        (nodes dir = none ∧ made = withDirs nodes dir ∧
          ∀ n, landing nodes links loc names n = some (n :: dir))) := by
  induction names generalizing loc links with
  | nil =>
      obtain rfl := Option.some.inj hmade
      exact ⟨loc, links, find_nil _ _ _, hloc, Or.inl ⟨rfl, fun n => rfl⟩⟩
  | cons m names ih =>
      cases hm : nodes (m :: loc) with
      | none =>
          rw [createDirAll_of_none h hloc hm] at hmade
          obtain rfl := Option.some.inj hmade
          have hnone : nodes (names.reverse ++ m :: loc) = none := by
            by_contra hsome
            have hdir : nodes (m :: loc) ≠ none := by
              by_cases heq : m :: loc = names.reverse ++ m :: loc
              · rw [heq]
                exact hsome
              · rw [h.above hsome (List.suffix_append _ _) heq]
                simp
            exact hdir hm
          have hdirs : ∀ l, l <:+ names.reverse ++ m :: loc →
              withDirs nodes (names.reverse ++ m :: loc) l = some .dir := by
            intro l hl
            rw [withDirs]
            split
            · rfl
            · rename_i hsome
              have hne : nodes l ≠ none := fun hno => hsome ⟨hl, hno⟩
              -- what there is above nothing is above the last directory that there is
              have habove : l <:+ loc := by
                rcases List.suffix_or_suffix_of_suffix hl (List.suffix_append _ (m :: loc)) with
                  hin | hover
                · rcases List.suffix_cons_iff.1 hin with heq | hin
                  · exact absurd (heq ▸ hm) hne
                  · exact hin
                · by_cases heq : m :: loc = l
                  · exact absurd (heq ▸ hm) hne
                  · exact absurd ((h.above hne hover heq).symm.trans hm) (by simp)
              by_cases heq : l = loc
              · rw [heq]
                exact hloc
              · exact h.above (by rw [hloc]; simp) habove heq
          refine ⟨names.reverse ++ m :: loc, links, ?_, hdirs _ List.suffix_rfl,
            Or.inr ⟨hnone, rfl, fun n => ?_⟩⟩
          · have hfind : find (withDirs nodes (names.reverse ++ m :: loc)) links loc
                ((m :: names).map .into) = .found ((m :: names).reverse ++ loc) links :=
              find_dirs (by simpa using hdirs)
            simpa using hfind
          · rw [landing, hm]
      | some node =>
          rw [createDirAll, hm] at hmade
          cases henter : enter nodes links loc m with
          | none => simp [henter] at hmade
          | some r =>
              obtain ⟨next, left⟩ := r
              rw [henter] at hmade
              obtain ⟨hfind, hnext⟩ := enter_eq_some_iff.1 henter
              obtain ⟨dir, k, hdirs, hdir, hlanding⟩ := ih hnext hmade
              obtain ⟨hwf, hgrows⟩ := wf_createDirAll h hnext hmade
              refine ⟨dir, k, ?_, hdir, ?_⟩
              · rw [List.map_cons, ← List.singleton_append, find_append hwf (hgrows.dir hloc),
                  find_of_grows hgrows hfind, Place.onward_dir (hgrows.dir hnext)]
                exact hdirs
              · have hsame : ∀ n, landing nodes links loc (m :: names) n =
                    landing nodes left next names n := by
                  intro n
                  rw [landing, hm, henter]
                rcases hlanding with ⟨heq, hl⟩ | ⟨hnone, heq, hl⟩
                · exact Or.inl ⟨heq, fun n => (hsame n).trans (hl n)⟩
                · exact Or.inr ⟨hnone, heq, fun n => (hsame n).trans (hl n)⟩

/-- What is behind a file, or would be in what has just been made, cannot be written. -/
theorem createFile_onward_stay (nodes : Nodes ν β) (content : β) (place : Place ν) :
    createFile nodes content (place.onward nodes [.stay]) = none := by
  cases place with
  | found loc links =>
      by_cases hdir : nodes loc = some .dir
      · rw [Place.onward_dir hdir, find_stay, find_nil, createFile, hdir]
      · have hnowhere : (Place.found loc links).onward nodes [.stay] = .nowhere := by
          cases hnode : nodes loc with
          | none => simp [Place.onward, hnode]
          | some node =>
              cases node with
              | dir => exact absurd hnode hdir
              | file content => simp [Place.onward, hnode]
              | link fromRoot target => simp [Place.onward, hnode]
        rw [hnowhere, createFile]
  | vacant loc => rfl
  | nowhere => rfl

theorem withDirs_tail (h : nodes.Wf) (hloc : nodes loc ≠ none) : withDirs nodes loc.tail = nodes := by
  apply withDirs_of_ne_none h
  cases loc with
  | nil => exact hloc
  | cons m loc =>
      show nodes loc ≠ none
      rw [h.parent hloc]
      simp

/-- **A file is put at its landing place**, if there is no directory. -/
theorem createFile_of_landing (h : nodes.Wf) (hloc : nodes loc = some .dir)
    (hlanding : landing nodes links loc names n = some loc') (hn : nodes loc' ≠ some .dir)
    (content : β) :
    ∃ made, createDirAll nodes links loc names = some made ∧
      createFile made content (find made links loc (names.map .into ++ [.into n])) =
        some (placed nodes loc' content) ∧
      (placed nodes loc' content).Wf ∧ Grows nodes (placed nodes loc' content) ∧
      ∃ k, find (placed nodes loc' content) links loc (names.map .into ++ [.into n]) =
        .found loc' k := by
  cases hmade : createDirAll nodes links loc names with
  | none => simp [landing_of_createDirAll_none h hloc hmade] at hlanding
  | some made =>
      obtain ⟨dir, k, hdirs, hdir, hcase⟩ := createDirAll_spec h hloc hmade
      obtain ⟨hwf, hgrows⟩ := wf_createDirAll h hloc hmade
      have hfind : find made links loc (names.map .into ++ [.into n]) =
          find made k dir [.into n] := by
        rw [find_append hwf (hgrows.dir hloc), hdirs, Place.onward_dir hdir]
      -- a free name in what has been made
      have hvacant : ∀ {l}, find made k dir [.into n] = .vacant l → placed nodes l content =
          add made l (.file content) → createFile made content (find made k dir [.into n]) =
            some (placed nodes l content) ∧ (placed nodes l content).Wf ∧
              Grows nodes (placed nodes l content) ∧
                ∃ k, find (placed nodes l content) links loc (names.map .into ++ [.into n]) =
                  .found l k := by
        intro l hl hplaced
        have hsound := find_sound hwf hdir k [.into n]
        rw [hl] at hsound
        obtain ⟨hfree, m, parent, rfl, hparent⟩ := hsound
        rw [hplaced, hl]
        refine ⟨rfl, hwf.add hparent (by rw [hfree]; simp), hgrows.trans (grows_add (Or.inl hfree)),
          find_add_of_vacant hfree content ?_⟩
        rw [hfind, hl]
      refine ⟨made, rfl, ?_⟩
      rw [hfind]
      rcases hcase with ⟨rfl, hsame⟩ | ⟨hnone, rfl, hfresh⟩
      · rw [hsame, landing] at hlanding
        have hsound := find_sound h hdir k [.into n]
        cases hplace : find made k dir [.into n] with
        | found l left =>
            rw [hplace] at hlanding hsound
            obtain rfl := Option.some.inj hlanding
            rcases hsound with hdir' | ⟨content', hfile⟩
            · exact absurd hdir' hn
            · have hplaced : placed made l content = add made l (.file content) := by
                rw [placed, withDirs_tail h (by rw [hfile]; simp)]
              have hgrow : Grows made (add made l (.file content)) :=
                grows_add (Or.inr ⟨content', content, hfile, rfl⟩)
              rw [hplaced]
              refine ⟨?_, ?_, hgrow, left, find_of_grows hgrow (hfind.trans hplace)⟩
              · rw [createFile, hfile]
              · cases l with
                | nil => exact absurd (h.root.symm.trans hfile) (by simp)
                | cons m parent => exact h.add (h.parent (by rw [hfile]; simp)) hn
        | vacant l =>
            rw [hplace] at hlanding hsound
            obtain rfl := Option.some.inj hlanding
            obtain ⟨-, m, parent, rfl, hparent⟩ := hsound
            rw [← hplace]
            apply hvacant hplace
            show add (withDirs made parent) _ _ = _
            rw [withDirs_of_ne_none h (by rw [hparent]; simp)]
        | nowhere =>
            rw [hplace] at hlanding
            exact absurd hlanding (by simp)
      · obtain rfl := Option.some.inj ((hfresh n).symm.trans hlanding)
        refine hvacant (find_into_none ?_) rfl
        rw [withDirs, if_neg]
        · exact none_of_none h hnone n
        · rintro ⟨hsuffix, -⟩
          have hlength := hsuffix.length_le
          rw [List.length_cons] at hlength
          exact Nat.not_succ_le_self _ hlength

/-- Where there is no landing place, or a directory at it, nothing is made. -/
theorem createFile_of_no_landing (h : nodes.Wf) (hloc : nodes loc = some .dir)
    (hlanding : ∀ l, landing nodes links loc names n = some l → nodes l = some .dir)
    (hmade : createDirAll nodes links loc names = some made) (content : β) :
    made = nodes ∧
      createFile made content (find made links loc (names.map .into ++ [.into n])) = none := by
  obtain ⟨dir, k, hdirs, hdir, hcase⟩ := createDirAll_spec h hloc hmade
  rcases hcase with ⟨rfl, hsame⟩ | ⟨hnone, -, hfresh⟩
  · refine ⟨rfl, ?_⟩
    rw [find_append h hloc, hdirs, Place.onward_dir hdir]
    have hsound := find_sound h hdir k [.into n]
    rw [hsame, landing] at hlanding
    cases hplace : find made k dir [.into n] with
    | found l left =>
        rw [hplace] at hlanding
        rw [createFile, hlanding l rfl]
    | vacant l =>
        rw [hplace] at hlanding hsound
        exact absurd ((hlanding l rfl).symm.trans hsound.1) (by simp)
    | nowhere => rfl
  · have hchild := hlanding _ (hfresh n)
    exact absurd (hchild.symm.trans (none_of_none h hnone n)) (by simp)

/-- A landing place where there is something is where the path leads to. -/
theorem find_of_landing (h : nodes.Wf) (hloc : nodes loc = some .dir)
    (hlanding : landing nodes links loc names n = some loc') (hsome : nodes loc' ≠ none) :
    ∃ k, find nodes links loc (names.map .into ++ [.into n]) = .found loc' k := by
  cases hmade : createDirAll nodes links loc names with
  | none => simp [landing_of_createDirAll_none h hloc hmade] at hlanding
  | some made =>
      obtain ⟨dir, k, hdirs, hdir, hcase⟩ := createDirAll_spec h hloc hmade
      rcases hcase with ⟨rfl, hsame⟩ | ⟨hnone, -, hfresh⟩
      · rw [find_append h hloc, hdirs, Place.onward_dir hdir]
        have hsound := find_sound h hdir k [.into n]
        rw [hsame, landing] at hlanding
        cases hplace : find made k dir [.into n] with
        | found l left =>
            rw [hplace] at hlanding
            obtain rfl := Option.some.inj hlanding
            exact ⟨left, rfl⟩
        | vacant l =>
            rw [hplace] at hlanding hsound
            obtain rfl := Option.some.inj hlanding
            exact absurd hsound.1 hsome
        | nowhere =>
            rw [hplace] at hlanding
            exact absurd hlanding (by simp)
      · obtain rfl := Option.some.inj ((hfresh n).symm.trans hlanding)
        exact absurd (none_of_none h hnone n) hsome

theorem placed_self (nodes : Nodes ν β) (loc : List ν) (content : β) :
    placed nodes loc content loc = some (.file content) := add_self _ _ _

/-- No other file is there for it, and none has gone. -/
theorem placed_eq_file_iff {l : List ν} (hne : l ≠ loc) {content' : β} :
    placed nodes loc content l = some (.file content') ↔ nodes l = some (.file content') := by
  rw [placed, add_of_ne hne, withDirs]
  split
  · rename_i hdir
    rw [hdir.2]
    simp
  · rfl

end Placing

end DialF.Lib
