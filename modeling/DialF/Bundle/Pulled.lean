import DialF.Bundle.Export

/-!
# Names in an archive

What is in an archive has a name that is made of names, and can be found again from it. The file of
the folder at a path has the path for its name; a file that is pulled in gets a name that no other
one has (`pullExternal_spec`), and nothing that has been gathered before is changed by it.
-/

set_option autoImplicit false

namespace DialF.Bundle

open DialF.Lib DialF.Jobs
open DialF.Daemon (isRelativePath)

/-! ## Paths and their texts -/

section Paths

variable {parts a b root : List Name} {n : Name}

theorem pathParts_zipName (h : ∀ n ∈ parts, IsName n) : pathParts (zipName parts) = parts :=
  pathParts_joinParts fun n hn => ⟨(h n hn).1, (h n hn).2.1⟩

theorem zipName_injective (ha : ∀ n ∈ a, IsName n) (hb : ∀ n ∈ b, IsName n)
    (h : zipName a = zipName b) : a = b := by
  rw [← pathParts_zipName ha, h, pathParts_zipName hb]

theorem joinParts_concat (hne : parts ≠ []) (n : Name) :
    joinParts (parts ++ [n]) = joinParts parts ++ '/' :: n := by
  induction parts with
  | nil => exact absurd rfl hne
  | cons m parts ih =>
      cases parts with
      | nil => simp [joinParts, List.intercalate]
      | cons m' parts =>
          have hstep : ∀ rest : List Name,
              joinParts (m :: m' :: rest) = m ++ '/' :: joinParts (m' :: rest) := by
            intro rest
            simp [joinParts, List.intercalate]
          rw [List.cons_append, List.cons_append, hstep, ← List.cons_append, ih (by simp), hstep,
            List.append_assoc, List.cons_append]

/-- The directory part of a name is the name of the directory. -/
theorem parentOfZipName_zipName (h : ∀ n ∈ parts, IsName n) :
    parentOfZipName (zipName parts) = zipName parts.dropLast := by
  -- there is no separator in a name
  have hdrop : ∀ {n : Name}, IsName n → n.reverse.dropWhile (· ≠ '/') = [] := by
    intro n hn
    rw [List.dropWhile_eq_nil_iff]
    intro c hc
    rw [List.mem_reverse] at hc
    exact decide_eq_true fun heq => hn.2.1 (heq ▸ hc)
  rcases List.eq_nil_or_concat parts with rfl | ⟨parts, n, rfl⟩
  · rfl
  · rw [List.concat_eq_append] at h ⊢
    have hn := hdrop (h n (by simp))
    rw [List.dropLast_concat]
    by_cases hnil : parts = []
    · subst hnil
      rw [parentOfZipName, show zipName ([] ++ [n]) = n by simp [zipName, joinParts], hn]
      rfl
    · rw [show zipName (parts ++ [n]) = zipName parts ++ '/' :: n from joinParts_concat hnil n,
        parentOfZipName, List.reverse_append, List.reverse_cons, List.append_assoc,
        List.dropWhile_append, hn]
      simp

theorem cleanParts_zipName (h : ∀ p ∈ parts, p ≠ [] ∧ '/' ∉ p ∧ p ≠ ['.']) :
    cleanParts (joinParts parts) = parts := by
  rw [cleanParts, pathParts_joinParts fun p hp => ⟨(h p hp).1, (h p hp).2.1⟩, List.filter_eq_self]
  intro p hp
  exact decide_eq_true (h p hp).2.2

/-- The parts of the relative path between two places of the archive. -/
theorem cleanParts_relativeZipPath (ha : ∀ n ∈ a, IsName n) (hb : ∀ n ∈ b, IsName n) :
    cleanParts (relativeZipPath (zipName a) (zipName b)) = route a b ∧
      isRelativePath (relativeZipPath (zipName a) (zipName b)) = true := by
  have hpath : relativeZipPath (zipName a) (zipName b) = joinParts (route a b) := by
    rw [relativeZipPath_eq, pathParts_zipName ha, pathParts_zipName hb]
  have hparts : ∀ p ∈ route a b, p ≠ [] ∧ '/' ∉ p ∧ p ≠ ['.'] := by
    intro p hp
    obtain ⟨hne, hsep⟩ := parts_route hb p hp
    refine ⟨hne, hsep, ?_⟩
    rcases List.mem_append.1 hp with hp | hp
    · rw [List.eq_of_mem_replicate hp]
      decide
    · exact (hb p (List.mem_of_mem_drop hp)).2.2.1
  rw [hpath]
  refine ⟨cleanParts_zipName hparts, ?_⟩
  rw [isRelativePath, decide_eq_true_eq]
  exact head?_joinParts fun p hp => ⟨(hparts p hp).1, (hparts p hp).2.1⟩

theorem map_toMove (h : ∀ n ∈ parts, IsName n) : parts.map toMove = parts.map .into := by
  apply List.map_congr_left
  intro n hn
  rw [toMove, if_neg (h n hn).2.2.2]

theorem relOf_append (root l : List Name) : relOf root (l ++ root) = l.reverse := by
  rw [relOf, List.length_append, Nat.add_sub_cancel, List.take_left]

theorem reverse_relOf {target : List Name} (h : root <:+ target) :
    (relOf root target).reverse ++ root = target := by
  obtain ⟨l, rfl⟩ := h
  rw [relOf_append, List.reverse_reverse]

end Paths

/-! ## Names for what is pulled in -/

section PulledName

variable {under base : Name}

theorem isName_numbered (hbase : IsName base) (n : Nat) :
    IsName (if n = 0 then base else numeral n ++ '-' :: base) := by
  split
  · exact hbase
  · have hdash : '-' ∈ numeral n ++ '-' :: base := by simp
    refine ⟨by simp, ?_, ?_, ?_⟩
    · intro hsep
      rcases List.mem_append.1 hsep with hdigit | hsep
      · exact absurd (isDigit_of_mem_numeral hdigit) (by decide)
      · rcases List.mem_cons.1 hsep with heq | hsep
        · exact absurd heq (by decide)
        · exact hbase.2.1 hsep
    · intro heq
      rw [heq] at hdash
      exact absurd hdash (by decide)
    · intro heq
      rw [heq] at hdash
      exact absurd hdash (by decide)

theorem pulledName_eq (under base : Name) (n : Nat) :
    pulledName under base n =
      zipName [under, if n = 0 then base else numeral n ++ '-' :: base] := by
  simp [pulledName, zipName, joinParts, List.intercalate]

theorem pulledName_injective (under base : Name) : Function.Injective (pulledName under base) := by
  intro n m h
  have hnumbered : (if n = 0 then base else numeral n ++ '-' :: base) =
      if m = 0 then base else numeral m ++ '-' :: base :=
    (List.cons.inj (List.append_cancel_left h)).2
  have hlonger : ∀ k, numeral k ++ '-' :: base ≠ base := by
    intro k heq
    have hlength := congrArg List.length heq
    simp at hlength
    omega
  by_cases hn : n = 0
  · by_cases hm : m = 0
    · rw [hn, hm]
    · rw [if_pos hn, if_neg hm] at hnumbered
      exact absurd hnumbered.symm (hlonger m)
  · by_cases hm : m = 0
    · rw [if_neg hn, if_pos hm] at hnumbered
      exact absurd hnumbered (hlonger n)
    · rw [if_neg hn, if_neg hm] at hnumbered
      exact numeral_injective (List.append_cancel_right hnumbered)

end PulledName

/-! ## What has been gathered -/

/-- The file reads as a job. -/
def Project.IsJob (P : Project) (fmt : Formats) (path : List Name) : Prop :=
  ∃ text job, P.disk.readToString (path.map .into) = some text ∧ fmt.parseJob text = some job

/-- The step plays a file that passes the test. -/
def playsFile (p : String → Bool) (step : Step) : Bool :=
  match step.kind with
  | .audioPlay file => p file
  | _ => false

/-- Some step of the job plays a file with the property. -/
def playsSome (p : String → Bool) (job : List Step) : Bool := job.any (playsFile p)

/-- The file at a location is a job, and a reference of it leads somewhere. -/
def Project.HasRefs (P : Project) (fmt : Formats) (target : List Name) : Prop :=
  ∃ text job, P.disk.readToString (target.reverse.map .into) = some text ∧
    fmt.parseJob text = some job ∧
    playsSome (fun file => (P.resolve target.tail.reverse file.toList).isSome) job = true

theorem Project.HasRefs.isJob {P : Project} {fmt : Formats} {target : List Name}
    (h : P.HasRefs fmt target) : P.IsJob fmt target.reverse := by
  obtain ⟨text, job, htext, hjob, -⟩ := h
  exact ⟨text, job, htext, hjob⟩

/-- Where a path can lead to. -/
def Disk.IsPlace (d : Disk) (loc : List Name) : Prop :=
  d.nodes loc = some .dir ∨ ∃ content, d.nodes loc = some (.file content)

theorem Disk.IsPlace.isName {d : Disk} {loc : List Name} (h : d.IsPlace loc) :
    ∀ n ∈ loc, IsName n := by
  rcases h with hdir | ⟨content, hfile⟩
  · exact Disk.isName (by rw [hdir]; simp)
  · exact Disk.isName (by rw [hfile]; simp)

/-- An entry is the file at a path; or that file is a job, and the entry is a text that has been
made of it. -/
def Gather.Sends (P : Project) (fmt : Formats) (g : Gather) (name : Str) (path : List Name) :
    Prop :=
  g.entries.lookup name = some (.file path) ∨
    (P.IsJob fmt path ∧ ∃ bytes, g.entries.lookup name = some (.bytes bytes))

/-- The entries are the files of the folder, under their paths, and those that have been pulled in,
each under a name of its own. -/
structure Gather.Inv (P : Project) (fmt : Formats) (g : Gather) : Prop where
  named : ∀ name ∈ g.entries, ∃ parts, parts ≠ [] ∧ (∀ n ∈ parts, IsName n) ∧ name = zipName parts
  known : ∀ name ∈ g.entries,
    (∃ f ∈ P.files, name = zipName f) ∨ ∃ target, g.pulled.lookup target = some name
  shipped : ∀ f ∈ P.files, g.Sends P fmt (zipName f) (below P.root f)
  sent : ∀ target name, g.pulled.lookup target = some name → g.Sends P fmt name target.reverse
  /-- A file is as it was where it has no references. -/
  plain : ∀ target name, g.pulled.lookup target = some name → ¬ P.HasRefs fmt target →
    g.entries.lookup name = some (.file target.reverse)
  outside : ∀ target name, g.pulled.lookup target = some name → ¬ P.root <:+ target
  place : ∀ target name, g.pulled.lookup target = some name → P.disk.IsPlace target
  under : ∀ target name, g.pulled.lookup target = some name →
    ∃ n, name = pulledName "samples".toList (target.head?.getD "file".toList) n ∨
      name = pulledName "scripts".toList (target.head?.getD "file".toList) n
  fresh : ∀ target name, g.pulled.lookup target = some name → ∀ f ∈ P.files, name ≠ zipName f
  unique : ∀ target target' name, g.pulled.lookup target = some name →
    g.pulled.lookup target' = some name → target = target'

/-- The file at a location under a name. -/
def Gather.pull (g : Gather) (target : List Name) (name : Str) : Gather :=
  { g with
    entries := g.entries.insert name (.file target.reverse)
    pulled := g.pulled.insert target name }

/-- Nothing is lost, and no entry is changed but those with certain names. -/
structure Gather.Keeps (but : Str → Prop) (g g' : Gather) : Prop where
  entries : ∀ name src, ¬ but name → g.entries.lookup name = some src →
    g'.entries.lookup name = some src
  pulled : ∀ target name, g.pulled.lookup target = some name → g'.pulled.lookup target = some name

section Gather

variable {P : Project} {fmt : Formats} {g g' g'' : Gather} {name : Str} {path target : List Name}
  {but but' : Str → Prop}

theorem Gather.Keeps.refl (but : Str → Prop) (g : Gather) : g.Keeps but g :=
  ⟨fun _ _ _ h => h, fun _ _ h => h⟩

theorem Gather.Keeps.trans (h : g.Keeps but g') (h' : g'.Keeps but g'') : g.Keeps but g'' where
  entries name src hbut hsrc := h'.entries name src hbut (h.entries name src hbut hsrc)
  pulled target name hname := h'.pulled target name (h.pulled target name hname)

theorem Gather.Keeps.mono (h : g.Keeps but g') (himp : ∀ name, but name → but' name) :
    g.Keeps but' g' :=
  ⟨fun name src hbut hsrc => h.entries name src (fun hn => hbut (himp name hn)) hsrc, h.pulled⟩

theorem Gather.Keeps.warn (h : g.Keeps but g') (w : Warning) : g.Keeps but (g'.warn w) :=
  ⟨h.entries, h.pulled⟩

theorem Gather.keeps_insert (g : Gather) (name : Str) (src : Src) :
    g.Keeps (· = name) (g.insert name src) :=
  ⟨fun _ _ hne hsrc => (AList.lookup_insert_ne hne).trans hsrc, fun _ _ h => h⟩

theorem Gather.Inv.warn (h : g.Inv P fmt) (w : Warning) : (g.warn w).Inv P fmt :=
  ⟨h.named, h.known, h.shipped, h.sent, h.plain, h.outside, h.place, h.under, h.fresh, h.unique⟩

theorem Gather.Keeps.sends (h : g.Keeps but g') (hbut : ¬ but name)
    (hs : g.Sends P fmt name path) : g'.Sends P fmt name path := by
  rcases hs with hfile | ⟨hjob, bytes, hbytes⟩
  · exact Or.inl (h.entries _ _ hbut hfile)
  · exact Or.inr ⟨hjob, bytes, h.entries _ _ hbut hbytes⟩

theorem Gather.Sends.mem (h : g.Sends P fmt name path) : name ∈ g.entries := by
  rw [← AList.lookup_isSome]
  rcases h with hfile | ⟨-, bytes, hbytes⟩
  · rw [hfile]
    rfl
  · rw [hbytes]
    rfl

theorem lookup_insert_cases {α : Type} [DecidableEq α] {β : Type} {map : AList fun _ : α => β}
    {k k' : α} {v v' : β} (h : (map.insert k v).lookup k' = some v') :
    (k' = k ∧ v' = v) ∨ (k' ≠ k ∧ map.lookup k' = some v') := by
  by_cases hk : k' = k
  · subst hk
    rw [AList.lookup_insert] at h
    exact Or.inl ⟨rfl, (Option.some.inj h).symm⟩
  · rw [AList.lookup_insert_ne hk] at h
    exact Or.inr ⟨hk, h⟩

/-- A file is pulled in once: it has its name already, or it gets a free one. -/
theorem pullExternal_cases (target : List Name) (under : Name) (g : Gather) :
    (∃ name, g.pulled.lookup target = some name ∧ pullExternal target under g = (name, g)) ∨
      ∃ n, g.pulled.lookup target = none ∧
        pulledName under (target.head?.getD "file".toList) n ∉ g.entries ∧
        pullExternal target under g =
          (pulledName under (target.head?.getD "file".toList) n,
            g.pull target (pulledName under (target.head?.getD "file".toList) n)) := by
  cases hknown : g.pulled.lookup target with
  | some name =>
      refine Or.inl ⟨name, rfl, ?_⟩
      rw [pullExternal, hknown]
  | none =>
      obtain ⟨hfree, -⟩ := firstFree_spec (fun name => decide (name ∈ g.entries))
        (pulledName_injective under (target.head?.getD "file".toList))
        (fun n hn => AList.mem_keys.1 (of_decide_eq_true hn)) (Nat.le_refl _) 0
      refine Or.inr ⟨_, rfl, of_decide_eq_false hfree, ?_⟩
      rw [pullExternal, hknown]
      rfl

/-- A name that is free is given to a file that has none, and nothing else changes. -/
theorem Gather.keeps_pull (hknown : g.pulled.lookup target = none) (hnew : name ∉ g.entries) :
    g.Keeps (fun _ => False) (g.pull target name) := by
  constructor
  · intro name' src _ hsrc
    have hne : name' ≠ name := by
      rintro rfl
      rw [AList.lookup_eq_none.2 hnew] at hsrc
      exact absurd hsrc (by simp)
    exact (AList.lookup_insert_ne hne).trans hsrc
  · intro target' name' hname'
    have hne : target' ≠ target := by
      rintro rfl
      rw [hknown] at hname'
      exact absurd hname' (by simp)
    exact (AList.lookup_insert_ne hne).trans hname'

theorem Gather.lookup_pull (g : Gather) (target : List Name) (name : Str) :
    (g.pull target name).pulled.lookup target = some name := AList.lookup_insert _

/-- **A file from outside the folder**, at a place of the disk, under a name that is free. -/
theorem Gather.Inv.pull (h : g.Inv P fmt) (hknown : g.pulled.lookup target = none)
    (hout : ¬ P.root <:+ target) (hplace : P.disk.IsPlace target) {under : Name}
    (hunder : under = "samples".toList ∨ under = "scripts".toList) {n : Nat}
    (hnew : pulledName under (target.head?.getD "file".toList) n ∉ g.entries) :
    (g.pull target (pulledName under (target.head?.getD "file".toList) n)).Inv P fmt := by
  have hbase : IsName (target.head?.getD "file".toList) := by
    cases htarget : target with
    | nil => decide
    | cons m rest =>
        apply hplace.isName m
        rw [htarget]
        exact List.mem_cons_self
  have hform : ∃ m, pulledName under (target.head?.getD "file".toList) n =
        pulledName "samples".toList (target.head?.getD "file".toList) m ∨
      pulledName under (target.head?.getD "file".toList) n =
        pulledName "scripts".toList (target.head?.getD "file".toList) m := by
    rcases hunder with rfl | rfl
    · exact ⟨n, Or.inl rfl⟩
    · exact ⟨n, Or.inr rfl⟩
  have hparts : ∀ m ∈ [under, if n = 0 then target.head?.getD "file".toList
      else numeral n ++ '-' :: target.head?.getD "file".toList], IsName m := by
    intro m hm
    rcases List.mem_cons.1 hm with rfl | hm
    · rcases hunder with rfl | rfl <;> decide
    · rw [List.mem_singleton.1 hm]
      exact isName_numbered hbase n
  have heq := pulledName_eq under (target.head?.getD "file".toList) n
  generalize pulledName under (target.head?.getD "file".toList) n = name at *
  have hkeeps := Gather.keeps_pull hknown hnew
  -- each of what has been pulled in is this file, or it has been there before
  constructor
  · intro name' hmem
    rcases (AList.mem_insert _).1 hmem with rfl | hmem
    · exact ⟨_, by simp, hparts, heq⟩
    · exact h.named name' hmem
  · intro name' hmem
    rcases (AList.mem_insert _).1 hmem with rfl | hmem
    · exact Or.inr ⟨target, g.lookup_pull target _⟩
    · apply (h.known name' hmem).imp_right
      rintro ⟨target', hpulled⟩
      exact ⟨target', hkeeps.pulled _ _ hpulled⟩
  · intro f hf
    exact hkeeps.sends not_false (h.shipped f hf)
  · intro target' name' hpulled
    rcases lookup_insert_cases hpulled with ⟨rfl, rfl⟩ | ⟨-, hpulled⟩
    · exact Or.inl (AList.lookup_insert _)
    · exact hkeeps.sends not_false (h.sent _ _ hpulled)
  · intro target' name' hpulled hrefs
    rcases lookup_insert_cases hpulled with ⟨rfl, rfl⟩ | ⟨-, hpulled⟩
    · exact AList.lookup_insert _
    · exact hkeeps.entries _ _ not_false (h.plain _ _ hpulled hrefs)
  · intro target' name' hpulled
    rcases lookup_insert_cases hpulled with ⟨rfl, rfl⟩ | ⟨-, hpulled⟩
    · exact hout
    · exact h.outside _ _ hpulled
  · intro target' name' hpulled
    rcases lookup_insert_cases hpulled with ⟨rfl, rfl⟩ | ⟨-, hpulled⟩
    · exact hplace
    · exact h.place _ _ hpulled
  · intro target' name' hpulled
    rcases lookup_insert_cases hpulled with ⟨rfl, rfl⟩ | ⟨-, hpulled⟩
    · exact hform
    · exact h.under _ _ hpulled
  · intro target' name' hpulled f hf
    rcases lookup_insert_cases hpulled with ⟨rfl, rfl⟩ | ⟨-, hpulled⟩
    · rintro rfl
      exact hnew (h.shipped f hf).mem
    · exact h.fresh _ _ hpulled f hf
  -- the name was free, so that no other file has it
  · intro target₁ target₂ name' hpulled₁ hpulled₂
    rcases lookup_insert_cases hpulled₁ with ⟨rfl, rfl⟩ | ⟨-, hold₁⟩
    · rcases lookup_insert_cases hpulled₂ with ⟨rfl, -⟩ | ⟨-, hold₂⟩
      · rfl
      · exact absurd (h.sent _ _ hold₂).mem hnew
    · rcases lookup_insert_cases hpulled₂ with ⟨rfl, rfl⟩ | ⟨-, hold₂⟩
      · exact absurd (h.sent _ _ hold₁).mem hnew
      · exact h.unique _ _ _ hold₁ hold₂

/-- **A file that is pulled in** has a name of its own, and all else is as it was. -/
theorem pullExternal_spec (h : g.Inv P fmt) (hout : ¬ P.root <:+ target)
    (hplace : P.disk.IsPlace target) {under : Name}
    (hunder : under = "samples".toList ∨ under = "scripts".toList) :
    g.Keeps (fun _ => False) (pullExternal target under g).2 ∧
      (pullExternal target under g).2.Inv P fmt ∧
      (pullExternal target under g).2.pulled.lookup target =
        some (pullExternal target under g).1 := by
  obtain ⟨name, hknown, hpull⟩ | ⟨n, hknown, hnew, hpull⟩ := pullExternal_cases target under g
  · rw [hpull]
    exact ⟨Gather.Keeps.refl _ g, h, hknown⟩
  · rw [hpull]
    exact ⟨Gather.keeps_pull hknown hnew, h.pull hknown hout hplace hunder hnew,
      g.lookup_pull target _⟩

/-- An entry that has been made of a job may be put in the place of its file. -/
theorem Gather.Inv.insert (h : g.Inv P fmt) (hname : name ∈ g.entries) (bytes : Bytes)
    (hshipped : ∀ f ∈ P.files, zipName f = name → P.IsJob fmt (below P.root f))
    (hsent : ∀ target, g.pulled.lookup target = some name → P.HasRefs fmt target) :
    (g.insert name (.bytes bytes)).Inv P fmt := by
  have hmem : ∀ name' ∈ (g.insert name (.bytes bytes)).entries, name' ∈ g.entries := by
    intro name' hmem
    rcases (AList.mem_insert _).1 hmem with rfl | hmem
    · exact hname
    · exact hmem
  have hsends : ∀ name' path, g.Sends P fmt name' path →
      (name' = name → P.IsJob fmt path) →
        (g.insert name (.bytes bytes)).Sends P fmt name' path := by
    intro name' path hs hjob
    by_cases heq : name' = name
    · subst heq
      exact Or.inr ⟨hjob rfl, bytes, AList.lookup_insert _⟩
    · exact (g.keeps_insert name _).sends heq hs
  refine ⟨fun name' hin => h.named name' (hmem name' hin),
    fun name' hin => h.known name' (hmem name' hin),
    fun f hf => hsends _ _ (h.shipped f hf) (hshipped f hf), ?_, ?_, h.outside, h.place, h.under,
    h.fresh, h.unique⟩
  · intro target name' hpulled
    apply hsends _ _ (h.sent target name' hpulled)
    rintro rfl
    exact (hsent target hpulled).isJob
  · intro target name' hpulled hrefs
    have hne : name' ≠ name := by
      rintro rfl
      exact hrefs (hsent target hpulled)
    exact (g.keeps_insert name _).entries _ _ hne (h.plain target name' hpulled hrefs)

end Gather

/-! ## The files of the folder -/

section Files

variable {P : Project} {fmt : Formats} {f : List Name}

theorem Project.file_of_mem (hf : f ∈ P.files) :
    ∃ target bytes, P.disk.locate P.root f = some target ∧
      P.disk.nodes target = some (.file bytes) ∧ f ≠ [] ∧ (∀ n ∈ f, IsName n) := by
  obtain ⟨hwalk, -⟩ := List.mem_filter.1 hf
  obtain ⟨entered, h⟩ := P.disk.walk_spec P.excluded P.zipAbs P.isDir
  obtain ⟨rel, -, n, target, bytes, rfl, -, htarget, hfile, -⟩ := (h.mem_iff f).1 hwalk
  exact ⟨target, bytes, htarget, hfile, by simp, Disk.isName_of_locate P.isDir htarget⟩

theorem Project.isName_of_mem (hf : f ∈ P.files) : ∀ n ∈ f, IsName n := by
  obtain ⟨-, -, -, -, -, hnames⟩ := P.file_of_mem hf
  exact hnames

theorem Project.zipName_inj {f' : List Name} (hf : f ∈ P.files) (hf' : f' ∈ P.files)
    (h : zipName f = zipName f') : f = f' :=
  zipName_injective (P.isName_of_mem hf) (P.isName_of_mem hf') h

theorem Project.nodup_files (P : Project) : P.files.Nodup := by
  obtain ⟨entered, h⟩ := P.disk.walk_spec P.excluded P.zipAbs P.isDir
  exact h.nodup.filter _

/-- All files of the folder have their entries from the start, and there are no others. -/
theorem Project.lookup_reserve (hf : f ∈ P.files) :
    P.reserve.entries.lookup (zipName f) = some (.file (below P.root f)) := by
  have hlookup : ∀ (files : List (List Name)) (entries : AList fun _ : Str => Src),
      (∀ f ∈ files, f ∈ P.files) → ∀ f ∈ P.files,
      (f ∈ files ∨ entries.lookup (zipName f) = some (.file (below P.root f))) →
      (files.foldl (fun entries f => entries.insert (zipName f) (.file (below P.root f)))
        entries).lookup (zipName f) = some (.file (below P.root f)) := by
    intro files
    induction files with
    | nil =>
        intro entries _ f _ h
        exact h.resolve_left List.not_mem_nil
    | cons f' files ih =>
        intro entries hsub f hf h
        rw [List.foldl_cons]
        apply ih _ (fun x hx => hsub x (List.mem_cons_of_mem f' hx)) f hf
        by_cases heq : f = f'
        · subst heq
          exact Or.inr (AList.lookup_insert _)
        · rcases h with hmem | hold
          · exact Or.inl ((List.mem_cons.1 hmem).resolve_left heq)
          · refine Or.inr ((AList.lookup_insert_ne ?_).trans hold)
            intro hname
            exact heq (P.zipName_inj hf (hsub f' List.mem_cons_self) hname)
  exact hlookup P.files ∅ (fun _ h => h) f hf (Or.inl hf)

theorem Project.mem_reserve {name : Str} (h : name ∈ P.reserve.entries) :
    ∃ f ∈ P.files, name = zipName f := by
  have hfold : ∀ (files : List (List Name)) (entries : AList fun _ : Str => Src) (name : Str),
      name ∈ files.foldl
          (fun entries f => entries.insert (zipName f) (.file (below P.root f))) entries ↔
        (∃ f ∈ files, name = zipName f) ∨ name ∈ entries := by
    intro files
    induction files with
    | nil => simp
    | cons f files ih =>
        intro entries name
        rw [List.foldl_cons, ih, AList.mem_insert, List.exists_mem_cons_iff]
        rw [or_left_comm, or_assoc]
  exact ((hfold _ _ _).1 h).resolve_right (AList.notMem_empty name)

theorem Project.inv_reserve (P : Project) (fmt : Formats) : P.reserve.Inv P fmt := by
  have hnone : ∀ target name, ¬ P.reserve.pulled.lookup target = some name := by
    intro target name h
    rw [show P.reserve.pulled = ∅ from rfl, AList.lookup_empty] at h
    exact absurd h (by simp)
  refine ⟨?_, fun name hname => Or.inl (P.mem_reserve hname),
    fun f hf => Or.inl (P.lookup_reserve hf),
    fun _ _ h => absurd h (hnone _ _), fun _ _ h => absurd h (hnone _ _),
    fun _ _ h => absurd h (hnone _ _), fun _ _ h => absurd h (hnone _ _),
    fun _ _ h => absurd h (hnone _ _), fun _ _ h => absurd h (hnone _ _),
    fun _ _ _ h => absurd h (hnone _ _)⟩
  intro name hname
  obtain ⟨f, hf, rfl⟩ := P.mem_reserve hname
  obtain ⟨-, -, -, -, hne, hnames⟩ := P.file_of_mem hf
  exact ⟨f, hne, hnames, rfl⟩

end Files

end DialF.Bundle
