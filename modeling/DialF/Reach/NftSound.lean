import DialF.Reach.NftLines

/-!
# What the answer of `nft_open` is worth

The answer is yes exactly for the rulesets with an opening (`nftOpen_eq_yes_iff`): one of the rules
is taken for an opening, or nothing is seen that turns packets away. It is right exactly where the
ruleset is not misread (`nftOpen_sound_iff`), and a rule that is limited to one interface is misread
(`nftOpen_oneInterface`).
-/

set_option autoImplicit false

namespace DialF.Reach

open DialF.Lib DialF.Share

/-! ## The answer -/

section Answer

variable {conf proto p : Str} {ruleset : Ruleset} {port : Nat}

theorem infix_stripCr_iff {line : Str} (hne : p ≠ []) (hcr : '\r' ∉ p) :
    p <:+: stripCr line ↔ p <:+: line := by
  unfold stripCr
  split
  · rename_i hlast
    obtain ⟨before, rfl⟩ := List.getLast?_eq_some_iff.1 hlast
    have hmargins : p <:+: [] ++ before ++ ['\r'] ↔ p <:+: before := by
      apply infix_margins_iff hne (by simp)
      intro c hc heq
      rw [List.mem_singleton.1 hc] at heq
      exact hcr (List.mem_of_getLast? heq)
    rw [List.dropLast_concat]
    exact hmargins.symm
  · exact Iff.rfl

theorem infix_linesGo_iff {line s : Str} (hne : p ≠ []) (hnl : '\n' ∉ p) (hcr : '\r' ∉ p) :
    (∃ l ∈ linesGo line s, p <:+: l) ↔ p <:+: line ++ s := by
  induction s generalizing line with
  | nil =>
      cases line with
      | nil => simp [linesGo, hne]
      | cons c line => simp [linesGo]
  | cons c s ih =>
      rw [linesGo]
      split
      · rename_i hc
        rw [hc, infix_append_cons_iff hnl, List.exists_mem_cons_iff, infix_stripCr_iff hne hcr, ih,
          List.nil_append]
      · rw [ih, List.append_assoc, List.singleton_append]

/-- A text has a pattern in it where a line of it has. -/
theorem infix_lines_iff (hne : p ≠ []) (hnl : '\n' ∉ p) (hcr : '\r' ∉ p) :
    (∃ l ∈ lines conf, p <:+: l) ↔ p <:+: conf :=
  infix_linesGo_iff hne hnl hcr

/-- A text of lines, each with white space in front. -/
theorem isRuleset_of_rows {rows : List (Str × List Piece)}
    (hlines : lines conf = rows.map fun row => row.1 ++ spaced (lineWords row.2))
    (hblank : ∀ row ∈ rows, row.1.all isWhitespace = true)
    (hlegal : ∀ row ∈ rows, LegalLine row.2) : IsRuleset conf (rows.map Prod.snd) := by
  rw [IsRuleset, hlines, List.forall₂_map_left_iff, List.forall₂_map_right_iff, List.forall₂_same]
  intro row hrow
  exact ⟨hlegal row hrow, row.1, [], [], by simpa using hblank row hrow, Or.inl rfl, by decide,
    by simp⟩

/-- What holds of a line of the text where something holds of a line of the ruleset. -/
theorem IsRuleset.exists_line_iff {P : Str → Prop} {Q : List Piece → Prop}
    (h : IsRuleset conf ruleset) (hPQ : ∀ text line, ReadsLine text line → (P text ↔ Q line)) :
    (∃ text ∈ lines conf, P text) ↔ ∃ line ∈ ruleset, Q line := by
  rw [IsRuleset] at h
  generalize lines conf = texts at h ⊢
  induction h with
  | nil => simp
  | cons hline _ ih =>
      rw [List.exists_mem_cons_iff, List.exists_mem_cons_iff, hPQ _ _ hline, ih]

theorem Ruleset.mem_rules {r : NftRule} : r ∈ ruleset.rules ↔ ∃ line ∈ ruleset, .rule r ∈ line := by
  rw [Ruleset.rules, List.mem_filterMap]
  constructor
  · rintro ⟨p, hp, hr⟩
    obtain ⟨line, hline, hp⟩ := List.mem_flatten.1 hp
    cases p with
    | rule r' =>
        obtain rfl := Option.some.inj hr
        exact ⟨line, hline, hp⟩
    | table | chain | block | close | hook | policy | other => cases hr
  · rintro ⟨line, hline, hr⟩
    exact ⟨.rule r, List.mem_flatten.2 ⟨line, hline, hr⟩, rfl⟩

/-- **The scan sees nothing** that turns packets away where the ruleset is silent. -/
theorem restrictive_eq_false_iff (h : IsRuleset conf ruleset) :
    restrictive conf = false ↔ ruleset.Silent := by
  have hpolicy : hasText "policy drop".toList conf = true ↔
      ∃ line ∈ ruleset, ∃ semicolon, .policy true semicolon ∈ line := by
    rw [hasText_iff, ← infix_lines_iff (by decide) (by decide) (by decide)]
    exact h.exists_line_iff fun text line hline => hline.policy_infix_iff
  have hdrop : (lines conf).any dropHit = true ↔ ∃ line ∈ ruleset, InSight (lineWords line) := by
    rw [List.any_eq_true]
    exact h.exists_line_iff fun text line hline => hline.dropHit_iff
  rw [← Bool.not_eq_true, restrictive, Bool.or_eq_true, not_or, hpolicy, hdrop, Ruleset.Silent]
  refine and_congr ?_ (by simp only [not_exists, not_and])
  constructor
  · intro hnone p hp semicolon heq
    obtain ⟨line, hline, hp⟩ := List.mem_flatten.1 hp
    exact hnone ⟨line, hline, semicolon, heq ▸ hp⟩
  · rintro hnone ⟨line, hline, semicolon, hp⟩
    exact hnone _ (List.mem_flatten.2 ⟨line, hline, hp⟩) semicolon rfl

/-- **The answer is yes** where the scan finds an opening among the rules. -/
theorem nftOpen_eq_yes_iff (h : IsRuleset conf ruleset) (hproto : proto ∈ portProtocols) :
    nftOpen conf proto port = .yes ↔ ruleset.HasOpening proto port := by
  have haccept : (lines conf).any (acceptHit proto port) = true ↔
      ∃ r ∈ ruleset.rules, r.ReadsOpen proto port := by
    rw [List.any_eq_true, h.exists_line_iff fun text line hline => hline.acceptHit_iff hproto]
    constructor
    · rintro ⟨line, hline, r, hr, hopen⟩
      exact ⟨r, Ruleset.mem_rules.2 ⟨line, hline, hr⟩, hopen⟩
    · rintro ⟨r, hr, hopen⟩
      obtain ⟨line, hline, hr⟩ := Ruleset.mem_rules.1 hr
      exact ⟨line, hline, r, hr, hopen⟩
  rw [Ruleset.HasOpening, ← haccept, ← restrictive_eq_false_iff h, nftOpen]
  split
  · rename_i hhit
    simp [hhit]
  · rename_i hhit
    split
    · rename_i hrestrictive
      simp [hhit, hrestrictive]
    · rename_i hrestrictive
      simp [hrestrictive]

end Answer

/-! ## What it is worth -/

section Worth

variable {meaning : Str → Nat → Bool} {proto : Str} {port : Nat} {r : NftRule} {ruleset : Ruleset}

theorem Ruleset.not_letsIn_iff :
    ¬ ruleset.LetsIn meaning proto port ↔ ruleset.Shut meaning proto port := by
  rw [Ruleset.LetsIn, not_or, not_not]
  constructor
  · rintro ⟨hrestrictive, hnone⟩
    refine ⟨hrestrictive, fun r hr haccepts => ?_⟩
    rw [← Bool.not_eq_false]
    exact fun hfree => hnone ⟨r, hr, haccepts, hfree⟩
  · rintro ⟨hrestrictive, hlimited⟩
    refine ⟨hrestrictive, ?_⟩
    rintro ⟨r, hr, haccepts, hfree⟩
    rw [hlimited r hr haccepts] at hfree
    cases hfree

/-- A port that is read is meant, whatever the names mean. -/
theorem NftPort.has_of_isRead {p : NftPort} (h : p.isRead port = true) :
    p.has meaning port = true := by
  cases p with
  | one n => exact h
  | range lo hi => exact h
  | name w =>
      rw [NftPort.isRead, NftPort.has] at h
      split at h
      · rename_i hname
        rw [NftPort.has, if_pos hname]
        exact h
      · cases h

theorem NftRule.Misled.readsOpen (h : r.Misled proto port) : r.ReadsOpen proto port := by
  cases h with
  | limited hv hd hfor hread => exact ⟨hv, _, hd, hfor, Or.inl hread⟩
  | others hv hd hfor hread => exact ⟨hv, _, hd, hfor, Or.inl hread⟩
  | proto hv hd hfor hread => exact ⟨hv, _, hd, hfor, Or.inl hread⟩
  | number hv hd hfor hw hcovers =>
      exact ⟨hv, _, hd, hfor, Or.inr (List.any_eq_true.2 ⟨_, hw, hcovers⟩)⟩

/-- **A rule that is read as open accepts packets to the port**, on every interface and from every
source, or misleads. -/
theorem NftRule.ReadsOpen.accepts_or_misled (h : r.ReadsOpen proto port) :
    (r.Accepts meaning proto port ∧ r.isLimited = false) ∨ r.Misled proto port := by
  obtain ⟨hv, d, hd, hfor, hread | hnumber⟩ := h
  · cases hlimited : r.isLimited with
    | true => exact Or.inr (.limited hv hd hfor hread hlimited)
    | false =>
        cases hothers : d.others with
        | true => exact Or.inr (.others hv hd hfor hread hothers)
        | false =>
            cases hfits : (r.front ++ r.back).all (NftMatch.fits proto) with
            | false =>
                obtain ⟨m, hm, hno⟩ := List.all_eq_false.1 hfits
                exact Or.inr (.proto hv hd hfor hread hm (by simpa using hno))
            | true =>
                refine Or.inl ⟨⟨hv, ?_⟩, rfl⟩
                have hhas : d.ports.any (NftPort.has meaning port) = true := by
                  obtain ⟨p, hp, hread⟩ := List.any_eq_true.1 hread
                  exact List.any_eq_true.2 ⟨p, hp, NftPort.has_of_isRead hread⟩
                simp only [NftRule.covers, Option.mem_def.1 hd, Dport.covers, hhas, hothers, hfits,
                  decide_eq_true hfor]
                rfl
  · obtain ⟨w, hw, hcovers⟩ := List.any_eq_true.1 hnumber
    exact Or.inr (.number hv hd hfor hw hcovers)

/-- **When the answer yes is right**, whatever ports the names mean: unless the port is shut, and a
rule misleads the scan or it sees nothing that turns packets away. -/
theorem nftOpen_sound_iff (meaning : Str → Nat → Bool) {conf : Str} (h : IsRuleset conf ruleset)
    (hproto : proto ∈ portProtocols) :
    (nftOpen conf proto port = .yes → ruleset.LetsIn meaning proto port) ↔
      ¬ ruleset.Misread meaning proto port := by
  rw [nftOpen_eq_yes_iff h hproto, Ruleset.Misread, not_and]
  constructor
  · rintro hsound hshut (⟨r, hr, hmisled⟩ | hsilent)
    · exact Ruleset.not_letsIn_iff.2 hshut (hsound (Or.inl ⟨r, hr, hmisled.readsOpen⟩))
    · exact Ruleset.not_letsIn_iff.2 hshut (hsound (Or.inr hsilent))
  · intro hnot hyes
    by_contra hshut
    have hright := not_or.1 (hnot (Ruleset.not_letsIn_iff.1 hshut))
    rcases hyes with ⟨r, hr, hopen⟩ | hsilent
    · rcases hopen.accepts_or_misled with ⟨haccepts, hfree⟩ | hmisled
      · exact hshut (Or.inr ⟨r, hr, haccepts, hfree⟩)
      · exact hright.1 ⟨r, hr, hmisled⟩
    · exact hright.2 hsilent

end Worth

/-- A ruleset in which a range of ports, and a name, are let in. -/
def opened : Str :=
  ["table inet filter \x7b", " chain input \x7b", "  type filter hook input priority filter",
    "  policy drop", "  ct state invalid drop comment \"early drop\"", "  iif lo accept",
    "  tcp dport \x7b ssh, 8000-9000 \x7d accept", "  udp dport mdns accept",
    "  limit rate 5/second counter reject with icmpx", " \x7d", "\x7d"].flatMap fun line =>
      line.toList ++ ['\n']

/-- Its lines, with what stands in front of each. -/
def openedRows : List (Str × List Piece) :=
  [([], [.table (words "inet filter".toList)]),
    (" ".toList, [.chain "input".toList]),
    ("  ".toList,
      [.hook (words "type filter".toList) "input".toList (words "priority filter".toList)]),
    ("  ".toList, [.policy true false]),
    ("  ".toList,
      [.rule ⟨[.condition (words "ct state invalid".toList)], none, [], some .drop, false,
        words "comment \"early drop\"".toList⟩]),
    ("  ".toList,
      [.rule ⟨[.condition (words "iif lo".toList)], none, [], some .accept, false, []⟩]),
    ("  ".toList,
      [.rule ⟨[], some ⟨"tcp".toList, false, [.name "ssh".toList, .range 8000 9000],
        words "\x7b ssh, 8000-9000 \x7d".toList⟩, [], some .accept, false, []⟩]),
    ("  ".toList,
      [.rule ⟨[], some ⟨"udp".toList, false, [.name "mdns".toList], words "mdns".toList⟩, [],
        some .accept, false, []⟩]),
    ("  ".toList,
      [.rule ⟨[.condition (words "limit rate 5/second".toList),
        .action (words "counter".toList)], none, [], some .reject, false,
        words "with icmpx".toList⟩]),
    (" ".toList, [.close]), ([], [.close])]

theorem isRuleset_opened : IsRuleset opened (openedRows.map Prod.snd) :=
  isRuleset_of_rows (by decide +kernel) (by decide +kernel) (by decide +kernel)

/-- It is rightly taken to be open. -/
theorem nftOpen_sound_opened :
    nftOpen opened "tcp".toList 8765 = .yes ∧
      Ruleset.LetsIn (openedRows.map Prod.snd) (fun _ _ => false) "tcp".toList 8765 := by
  have hyes : nftOpen opened "tcp".toList 8765 = .yes := by decide +kernel
  refine ⟨hyes, (nftOpen_sound_iff (fun _ _ => false) isRuleset_opened (by decide)).2 ?_ hyes⟩
  rintro ⟨hshut, -⟩
  exact Ruleset.not_letsIn_iff.2 hshut (by decide +kernel)

/-- A ruleset that lets a port in on one interface only. -/
def oneInterface : Str :=
  ["table inet filter \x7b", " chain input \x7b",
    "  type filter hook input priority 0; policy drop;",
    "  iifname \"wg0\" tcp dport 8765 accept", " \x7d", "\x7d"].flatMap fun line =>
      line.toList ++ ['\n']

/-- Its lines, with what stands in front of each. -/
def oneInterfaceRows : List (Str × List Piece) :=
  [([], [.table (words "inet filter".toList)]),
    (" ".toList, [.chain "input".toList]),
    ("  ".toList,
      [.hook (words "type filter".toList) "input".toList (words "priority 0;".toList),
        .policy true true]),
    ("  ".toList,
      [.rule ⟨[.condition (words "iifname \"wg0\"".toList)],
        some ⟨"tcp".toList, false, [.one 8765], words "8765".toList⟩, [], some .accept, false,
        []⟩]),
    (" ".toList, [.close]), ([], [.close])]

/-- It is taken to be open. -/
theorem nftOpen_oneInterface :
    IsRuleset oneInterface (oneInterfaceRows.map Prod.snd) ∧
      nftOpen oneInterface "tcp".toList 8765 = .yes ∧
        ¬ Ruleset.LetsIn (oneInterfaceRows.map Prod.snd) (fun _ _ => false) "tcp".toList 8765 :=
  ⟨isRuleset_of_rows (by decide +kernel) (by decide +kernel) (by decide +kernel),
    by decide +kernel, by decide +kernel⟩

end DialF.Reach
