import DialF.Reach.Nft

/-!
# The scan of `nft_open` on one line

The scan goes through characters, a ruleset is read by its words. The two meet line by line: what
the scan looks for in a line is found in the words of the line, and there it is a rule that is taken
for an opening (`ReadsLine.acceptHit_iff`), a `drop` or a `reject` (`ReadsLine.dropHit_iff`), or a
policy (`ReadsLine.policy_infix_iff`).
-/

set_option autoImplicit false

namespace DialF.Reach

open DialF.Lib DialF.Share

/-! ## Ports -/

section Ports

variable {port : Nat} {w : Str}

theorem named_decimalOf {n : Nat} (hn : n ≤ 65535) : named (decimalOf n) = some n := by
  have hname : decimalOf n ≠ "mdns".toList := by
    intro heq
    have hm : 'm' ∈ decimalOf n := heq ▸ by decide
    exact absurd (Nat.isDigit_of_mem_toDigits (by decide) (by decide) hm) (by decide)
  rw [named, if_neg hname, parseU16_decimalOf hn]

theorem dash_not_mem_decimalOf (n : Nat) : '-' ∉ decimalOf n :=
  fun hmem => absurd (isDash_of_mem_decimalOf hmem) (by decide)

/-- A text that starts with neither a digit nor a sign is no number. -/
theorem parseU16_eq_none (hw : ∀ c ∈ w.head?, c.isDigit = false ∧ c ≠ '+') :
    parseU16 w = none := by
  rw [Option.eq_none_iff_forall_ne_some]
  intro n hn
  obtain ⟨⟨digits, htext, hne, hdigits, -⟩, -⟩ := parseU16_eq_some_iff.1 hn
  rcases htext with rfl | rfl
  · obtain ⟨d, ds, rfl⟩ := List.exists_cons_of_ne_nil hne
    have hdigit := hdigits d List.mem_cons_self
    rw [(hw d rfl).1] at hdigit
    cases hdigit
  · exact (hw '+' rfl).2 rfl

/-- **A port is read** where it is a number, or the name `mdns`. -/
theorem wordCovers_text {p : NftPort} (hp : p.Legal) : wordCovers port p.text = p.isRead port := by
  cases p with
  | one n =>
      have hnone : splitOnce ['-'] (decimalOf n) = none := by
        rw [splitOnce_eq_none_iff, List.singleton_infix_iff]
        exact dash_not_mem_decimalOf n
      simp only [wordCovers, NftPort.text, hnone, named_decimalOf hp]
      rfl
  | range lo hi =>
      have hcut : splitOnce ['-'] (decimalOf lo ++ ['-'] ++ decimalOf hi) =
          some (decimalOf lo, decimalOf hi) := by
        apply splitOnce_append
        rw [List.singleton_infix_iff]
        simpa using dash_not_mem_decimalOf lo
      simp only [List.append_assoc, List.singleton_append] at hcut
      simp only [wordCovers, NftPort.text, hcut, named_decimalOf hp.1, named_decimalOf hp.2]
      rfl
  | name w =>
      obtain ⟨⟨c, hc, hdigit⟩, hmdns⟩ := hp
      have hhead : ∀ d ∈ w.head?, d.isDigit = false ∧ d ≠ '+' := by
        intro d hd
        obtain rfl := Option.some.inj (hc.symm.trans hd)
        exact hdigit
      by_cases hname : w = "mdns".toList
      · subst hname
        have hnone : splitOnce ['-'] "mdns".toList = none := by decide
        have hnamed : named "mdns".toList = some mdnsPort := if_pos rfl
        simp only [wordCovers, NftPort.text, hnone, hnamed, NftPort.isRead, NftPort.has, if_true]
        rw [Bool.eq_iff_iff, beq_iff_eq, beq_iff_eq, Option.some.injEq]
        exact eq_comm
      · simp only [NftPort.isRead, NftPort.has, if_neg hname, NftPort.text, wordCovers]
        cases hcut : splitOnce ['-'] w with
        | none =>
            have hnamed : named w = none := by rw [named, if_neg hname, parseU16_eq_none hhead]
            simp only [hnamed]
            rfl
        | some ends =>
            obtain ⟨lo, hi⟩ := ends
            have hw := eq_append_of_splitOnce hcut
            have hlo : named lo = none := by
              rw [named, if_neg]
              · apply parseU16_eq_none
                intro d hd
                apply hhead d
                rw [hw, List.append_assoc, List.head?_append, Option.mem_def.1 hd]
                rfl
              · rintro rfl
                exact hmdns ⟨hi, by rw [hw]; rfl⟩
            simp [hlo]

end Ports

/-! ## Words of a rule -/

section Words

variable {w : Str} {r : NftRule} {d : Dport} {proto : Str} {port : Nat}

theorem Quiet.isWord (h : Quiet w) : IsWord w := h.1

theorem NftMatch.Legal.quiet {m : NftMatch} (hm : m.Legal) (hw : w ∈ m.words) : Quiet w := by
  cases m with
  | proto key others values =>
      rcases List.mem_append.1 hw with hw | hw
      · rcases List.mem_append.1 hw with hw | hw
        · have hkeys : ∀ key ∈ NftMatch.protoKeys, ∀ w ∈ key, Quiet w := by decide
          exact hkeys key hm.1 w hw
        · have hmark : Quiet "!=".toList := by decide
          split at hw
          · exact List.mem_singleton.1 hw ▸ hmark
          · exact absurd hw List.not_mem_nil
      · exact (hm.2 w hw).1
  | condition words => exact (hm w hw).1.1
  | action words => exact (hm.1 w hw).1

theorem Dport.Legal.quiet (hd : d.Legal) (hw : w ∈ d.spec) : Quiet w := by
  rcases List.mem_append.1 hw with hw | hw
  · have hmark : Quiet "!=".toList := by decide
    split at hw
    · exact List.mem_singleton.1 hw ▸ hmark
    · exact absurd hw List.not_mem_nil
  · exact (hd.2.2.1 w hw).1

/-- What stands behind `dport` and before the verdict. -/
def NftRule.specOf (r : NftRule) (d : Dport) : List Str := d.spec ++ r.back.flatMap NftMatch.words

theorem NftRule.Legal.quiet_front (hr : r.Legal) (hw : w ∈ r.front.flatMap NftMatch.words) :
    Quiet w := by
  obtain ⟨m, hm, hw⟩ := List.mem_flatMap.1 hw
  exact (hr.1 m (List.mem_append_left _ hm)).quiet hw

theorem NftRule.Legal.quiet_specOf (hr : r.Legal) (hd : d ∈ r.dport) (hw : w ∈ r.specOf d) :
    Quiet w := by
  rcases List.mem_append.1 hw with hw | hw
  · exact (hr.2.1 d hd).quiet hw
  · obtain ⟨m, hm, hw⟩ := List.mem_flatMap.1 hw
    exact (hr.1 m (List.mem_append_right _ hm)).quiet hw

theorem NftRule.Legal.quiet_behind (hr : r.Legal) (hw : w ∈ r.behind) : Quiet w :=
  hr.2.2.2.1 w hw

/-- The words of a rule with ports, around its `dport`. -/
theorem NftRule.words_eq (hd : d ∈ r.dport) :
    r.words = r.front.flatMap NftMatch.words ++
      d.proto :: "dport".toList :: (r.specOf d ++ (r.verdictWords ++ r.behind)) := by
  rw [NftRule.words, NftRule.dportWords, Option.mem_def.1 hd, NftRule.specOf]
  simp

/-- The words of a rule without ports. -/
theorem NftRule.Legal.words_eq_of_none (hr : r.Legal) (hd : r.dport = none) :
    r.words = r.front.flatMap NftMatch.words ++ (r.verdictWords ++ r.behind) := by
  rw [NftRule.words, NftRule.dportWords, hd, hr.2.2.1 hd]
  simp

theorem Dport.Legal.proto_mem (hd : d.Legal) : d.proto ∈ "th".toList :: portProtocols := hd.1

/-- The protocol, the word behind it and a verdict are words, and no `policy` ends in them. -/
structure Shown (w : Str) : Prop where
  isWord : IsWord w
  noComment : '#' ∉ w
  noPolicy : ¬ "policy".toList <:+ w

theorem Quiet.shown (h : Quiet w) : Shown w := ⟨h.1, h.2.1, h.2.2.2.2⟩

theorem NftRule.eq_of_mem_verdictWords (hw : w ∈ r.verdictWords) :
    ∃ v, r.verdict = some v ∧ w = v.text ++ if r.semicolon then [';'] else [] := by
  rw [NftRule.verdictWords] at hw
  cases hv : r.verdict with
  | none =>
      rw [hv] at hw
      exact absurd hw List.not_mem_nil
  | some v =>
      rw [hv] at hw
      exact ⟨v, rfl, List.mem_singleton.1 hw⟩

theorem shown_of_verdict (hw : w ∈ r.verdictWords) : Shown w := by
  have hall : ∀ (v : NftVerdict) (s : Bool),
      IsWord (v.text ++ if s then [';'] else []) ∧ '#' ∉ (v.text ++ if s then [';'] else []) ∧
        ¬ "policy".toList <:+ (v.text ++ if s then [';'] else []) := by
    intro v s
    cases v <;> cases s <;> decide
  obtain ⟨v, -, rfl⟩ := NftRule.eq_of_mem_verdictWords hw
  obtain ⟨hword, hcomment, hpolicy⟩ := hall v r.semicolon
  exact ⟨hword, hcomment, hpolicy⟩

theorem not_dport_start_verdict (hw : w ∈ r.verdictWords) : ¬ "dport".toList <+: w := by
  obtain ⟨v, -, rfl⟩ := NftRule.eq_of_mem_verdictWords hw
  cases v <;> cases r.semicolon <;> decide

/-- Every word of a rule. -/
theorem NftRule.Legal.word_cases (hr : r.Legal) (hw : w ∈ r.words) :
    Quiet w ∨ w ∈ r.verdictWords ∨ ∃ d ∈ r.dport, w = d.proto ∨ w = "dport".toList := by
  cases hd : r.dport with
  | none =>
      rw [hr.words_eq_of_none hd, List.mem_append, List.mem_append] at hw
      rcases hw with hw | hw | hw
      · exact Or.inl (hr.quiet_front hw)
      · exact Or.inr (Or.inl hw)
      · exact Or.inl (hr.quiet_behind hw)
  | some d =>
      rw [NftRule.words_eq hd, List.mem_append, List.mem_cons, List.mem_cons, List.mem_append,
        List.mem_append] at hw
      rcases hw with hw | rfl | rfl | hw | hw | hw
      · exact Or.inl (hr.quiet_front hw)
      · exact Or.inr (Or.inr ⟨d, rfl, Or.inl rfl⟩)
      · exact Or.inr (Or.inr ⟨d, rfl, Or.inr rfl⟩)
      · exact Or.inl (hr.quiet_specOf hd hw)
      · exact Or.inr (Or.inl hw)
      · exact Or.inl (hr.quiet_behind hw)

/-- What may stand before a `dport`. -/
theorem shown_of_key (hp : proto ∈ "th".toList :: portProtocols) :
    Shown proto ∧ ¬ "accept".toList <:+: proto ∧ ¬ "dport".toList <+: proto := by
  have hall : ∀ p ∈ "th".toList :: portProtocols,
      IsWord p ∧ '#' ∉ p ∧ ¬ "policy".toList <:+ p ∧ ¬ "accept".toList <:+: p ∧
        ¬ "dport".toList <+: p := by decide
  obtain ⟨hword, hcomment, hpolicy, hrest⟩ := hall proto hp
  exact ⟨⟨hword, hcomment, hpolicy⟩, hrest⟩

theorem NftRule.Legal.shown (hr : r.Legal) (hw : w ∈ r.words) : Shown w := by
  rcases hr.word_cases hw with hquiet | hverdict | ⟨d, hd, rfl | rfl⟩
  · exact hquiet.shown
  · exact shown_of_verdict hverdict
  · exact (shown_of_key (hr.2.1 d hd).proto_mem).1
  · exact ⟨by decide, by decide, by decide⟩

/-- A rule has a word with `accept` in it only where it accepts. -/
theorem NftRule.Legal.exists_accept_iff (hr : r.Legal) :
    (∃ w ∈ r.words, "accept".toList <:+: w) ↔ r.verdict = some .accept := by
  constructor
  · rintro ⟨w, hw, haccept⟩
    rcases hr.word_cases hw with hquiet | hverdict | ⟨d, hd, rfl | rfl⟩
    · exact absurd haccept hquiet.2.2.1
    · obtain ⟨v, hv, rfl⟩ := NftRule.eq_of_mem_verdictWords hverdict
      rw [hv]
      revert haccept
      cases v <;> cases r.semicolon <;> decide
    · exact absurd haccept (shown_of_key (hr.2.1 d hd).proto_mem).2.1
    · exact absurd haccept (by decide)
  · intro hv
    refine ⟨"accept".toList ++ (if r.semicolon then [';'] else []), ?_,
      (List.prefix_append _ _).isInfix⟩
    rw [NftRule.words, NftRule.verdictWords, hv]
    exact List.mem_append_left _ (List.mem_append_right _ (List.mem_singleton_self _))

end Words

/-! ## A rule on a line -/

section Line

variable {indent gap p proto : Str} {ws : List Str} {r : NftRule} {d : Dport} {port : Nat}

/-- A key is found across two words: one that ends in the protocol, and one that `dport` starts. -/
theorem key_infix_iff (hindent : ∀ c ∈ indent, isWhitespace c = true)
    (hgap : ∀ c ∈ gap, isWhitespace c = true) (hp : p ∈ "th".toList :: portProtocols)
    (hws : ∀ w ∈ ws, IsWord w) :
    p ++ " dport".toList <:+: indent ++ spaced ws ++ gap ↔
      ∃ w w', [w, w'] <:+: ws ∧ p <:+ w ∧ "dport".toList <+: w' := by
  have hword : IsWord p := (shown_of_key hp).1.isWord
  obtain ⟨first, rest, rfl⟩ := List.exists_cons_of_ne_nil hword.1
  rw [infix_margins_iff (by simp)]
  · exact infix_pair_spaced_iff (fun w hw => (hws w hw).blank_not_mem) hword.blank_not_mem
      (by decide)
  · -- the key begins with a character of the protocol
    rintro c hc heq
    obtain rfl := Option.some.inj heq
    exact absurd (hindent _ hc) (by simp [hword.2 _ List.mem_cons_self])
  · -- and ends with the last one of `dport`
    intro c hc heq
    rw [List.getLast?_append] at heq
    obtain rfl := Option.some.inj heq
    exact absurd (hgap _ hc) (by decide)

/-- The words behind `dport`, and all others, do not start with it. -/
theorem NftRule.Legal.not_dport_start (hr : r.Legal) (hd : d ∈ r.dport) {w : Str}
    (hw : w ∈ r.front.flatMap NftMatch.words ++ [d.proto] ∨
      w ∈ r.specOf d ++ (r.verdictWords ++ r.behind)) : ¬ "dport".toList <+: w := by
  simp only [List.mem_append, List.mem_singleton] at hw
  rcases hw with (hw | rfl) | hw | hw | hw
  · exact (hr.quiet_front hw).2.2.2.1
  · exact (shown_of_key (hr.2.1 d hd).proto_mem).2.2
  · exact (hr.quiet_specOf hd hw).2.2.2.1
  · exact not_dport_start_verdict hw
  · exact (hr.quiet_behind hw).2.2.2.1

/-- What stands behind `dport` on a line. -/
def NftRule.restOf (r : NftRule) (d : Dport) (gap : Str) : Str :=
  (r.specOf d ++ (r.verdictWords ++ r.behind)).flatMap (' ' :: ·) ++ gap

/-- The line is cut at its `dport`. -/
theorem NftRule.Legal.splitOnce_own (hr : r.Legal) (hd : d ∈ r.dport)
    (hindent : ∀ c ∈ indent, isWhitespace c = true) :
    splitOnce (d.proto ++ " dport".toList) (indent ++ spaced r.words ++ gap) =
      some (indent ++ (r.front.flatMap NftMatch.words).flatMap (· ++ [' ']), r.restOf d gap) := by
  have hmem := (hr.2.1 d hd).proto_mem
  have htext : indent ++ spaced r.words ++ gap =
      (indent ++ (r.front.flatMap NftMatch.words).flatMap (· ++ [' '])) ++
        (d.proto ++ " dport".toList) ++ r.restOf d gap := by
    rw [r.words_eq hd, spaced_around, NftRule.restOf]
    simp
  rw [htext]
  apply splitOnce_append
  -- the cut is the first one: an earlier one would have a word of the front start with `dport`
  have hbefore : indent ++ (r.front.flatMap NftMatch.words).flatMap (· ++ [' ']) ++
      (d.proto ++ " dport".toList).dropLast =
        indent ++ spaced (r.front.flatMap NftMatch.words ++ [d.proto, "dpor".toList]) ++ [] := by
    rw [spaced_around, List.dropLast_append_of_ne_nil (by decide)]
    simp
  have hwords : ∀ w ∈ r.front.flatMap NftMatch.words ++ [d.proto, "dpor".toList], IsWord w := by
    intro w hw
    simp only [List.mem_append, List.mem_cons, List.not_mem_nil, or_false] at hw
    rcases hw with hw | rfl | rfl
    · exact (hr.quiet_front hw).1
    · exact (shown_of_key hmem).1.isWord
    · decide
  rw [hbefore, key_infix_iff hindent (by simp) hmem hwords]
  rintro ⟨w, w', hpair, -, hdport⟩
  have hw' : w' ∈ r.front.flatMap NftMatch.words ++ [d.proto, "dpor".toList] :=
    hpair.subset (by simp)
  rw [List.append_cons, List.mem_append, List.mem_singleton] at hw'
  rcases hw' with hw' | rfl
  · exact hr.not_dport_start hd (Or.inl hw') hdport
  · exact absurd hdport (by decide)

/-- No other protocol cuts the line. -/
theorem NftRule.Legal.splitOnce_other (hr : r.Legal) (hd : d ∈ r.dport)
    (hindent : ∀ c ∈ indent, isWhitespace c = true) (hgap : ∀ c ∈ gap, isWhitespace c = true)
    (hp : p ∈ "th".toList :: portProtocols) (hne : d.proto ≠ p) :
    splitOnce (p ++ " dport".toList) (indent ++ spaced r.words ++ gap) = none := by
  have hapart : ∀ p ∈ "th".toList :: portProtocols, ∀ q ∈ "th".toList :: portProtocols,
      p <:+ q → q = p := by decide
  rw [splitOnce_eq_none_iff,
    key_infix_iff hindent hgap hp fun w hw => (hr.shown hw).isWord, r.words_eq hd]
  rintro ⟨w, w', hpair, hsuffix, hdport⟩
  rw [List.append_cons] at hpair
  -- two words side by side are both in front, both behind, or the protocol and `dport`
  rcases pair_infix_append hpair with hleft | hright | ⟨hlast, -⟩
  · exact hr.not_dport_start hd (Or.inl (hleft.subset (by simp))) hdport
  · obtain ⟨v, hv, hdport⟩ := exists_pair_infix_iff.1 ⟨w, w', hright, hdport⟩
    exact hr.not_dport_start hd (Or.inr hv) hdport
  · rw [List.getLast?_concat, Option.some.injEq] at hlast
    exact hne (hapart p hp _ (hr.2.1 d hd).proto_mem (hlast ▸ hsuffix))

/-- **Where the scan cuts a line**: at its `dport`, if that is for the protocol. -/
theorem NftRule.Legal.cut_eq (hr : r.Legal) (hd : d ∈ r.dport)
    (hindent : ∀ c ∈ indent, isWhitespace c = true) (hgap : ∀ c ∈ gap, isWhitespace c = true)
    (hproto : proto ∈ portProtocols) :
    ((splitOnce (proto ++ " dport".toList) (indent ++ spaced r.words ++ gap)).or
        (splitOnce "th dport".toList (indent ++ spaced r.words ++ gap))).map Prod.snd =
      if d.IsFor proto then some (r.restOf d gap) else none := by
  have hth : "th dport".toList = "th".toList ++ " dport".toList := rfl
  have hown : splitOnce (d.proto ++ " dport".toList) (indent ++ spaced r.words ++ gap) = some _ :=
    hr.splitOnce_own hd hindent
  -- the protocol is tried before `th`
  by_cases hp : d.proto = proto
  · have hfor : d.IsFor proto := Or.inl hp
    rw [← hp, hown, if_pos (hp ▸ hfor)]
    rfl
  · rw [hr.splitOnce_other hd hindent hgap (List.mem_cons_of_mem _ hproto) hp, Option.none_or, hth]
    by_cases hany : d.proto = "th".toList
    · have hfor : d.IsFor proto := Or.inr hany
      rw [← hany, hown, if_pos hfor]
      rfl
    · have hnot : ¬ d.IsFor proto := not_or.2 ⟨hp, hany⟩
      rw [hr.splitOnce_other hd hindent hgap List.mem_cons_self hany, if_neg hnot]
      rfl

end Line

/-! ## The ports of a rule on a line -/

section Spec

variable {w : Str} {ws : List Str} {r : NftRule} {d : Dport} {port : Nat} {gap : Str}

theorem specWords_append_blank (a b : Str) :
    specWords (a ++ ' ' :: b) = specWords a ++ specWords b := by
  rw [specWords, List.map_append, List.map_cons,
    List.splitOnP_append_cons _ _ (by decide : isPortSep (unbrace ' ') = true), List.filter_append]
  rfl

/-- Without blanks, a word has the same values to the scan as it has. -/
theorem specWords_of_word (hw : ' ' ∉ w) : specWords w = valuesIn w := by
  rw [specWords, valuesIn]
  congr 1
  induction w with
  | nil => rfl
  | cons c w ih =>
      have hc : c ≠ ' ' := fun h => hw (h ▸ List.mem_cons_self)
      have hmark : isPortSep (unbrace c) = isSetMark c := by
        by_cases hbrace : c = '{' ∨ c = '}'
        · rcases hbrace with rfl | rfl <;> decide
        · obtain ⟨hopen, hclose⟩ := not_or.1 hbrace
          rw [unbrace, if_neg hbrace, isPortSep, isSetMark, beq_false_of_ne hc,
            beq_false_of_ne hopen, beq_false_of_ne hclose, Bool.or_false, Bool.or_false]
      rw [List.map_cons, List.splitOnP_cons_eq_if_modifyHead, List.splitOnP_cons_eq_if_modifyHead,
        ih fun h => hw (List.mem_cons_of_mem c h), hmark]
      split
      · rfl
      · rename_i hno
        rw [unbrace, if_neg]
        rintro (rfl | rfl) <;> exact hno (by decide)

theorem specWords_flatMap (hws : ∀ w ∈ ws, ' ' ∉ w) :
    specWords (ws.flatMap (' ' :: ·) ++ [' ']) = ws.flatMap valuesIn := by
  induction ws with
  | nil => decide
  | cons w ws ih =>
      have hsplit : (w :: ws).flatMap (' ' :: ·) ++ [' '] =
          [] ++ ' ' :: (w ++ (ws.flatMap (' ' :: ·) ++ [' '])) := by simp
      have hrest : ∃ t, ws.flatMap (' ' :: ·) ++ [' '] = ' ' :: t := by
        cases ws with
        | nil => exact ⟨[], rfl⟩
        | cons v vs => exact ⟨_, rfl⟩
      obtain ⟨t, ht⟩ := hrest
      have htail : specWords t = ws.flatMap valuesIn := by
        rw [← ih fun v hv => hws v (List.mem_cons_of_mem w hv), ht]
        exact (specWords_append_blank [] t).symm
      rw [hsplit, specWords_append_blank, ht, specWords_append_blank, htail,
        specWords_of_word (hws w List.mem_cons_self), List.flatMap_cons]
      rfl

/-- Words without an `accept` in them have none in front of the first one. -/
theorem accept_absent (hws : ∀ w ∈ ws, ¬ "accept".toList <:+: w) :
    ¬ "accept".toList <:+: (ws.flatMap (' ' :: ·) ++ [' ']) ++ "accept".toList.dropLast := by
  have htext : (ws.flatMap (' ' :: ·) ++ [' ']) ++ "accept".toList.dropLast =
      (ws ++ ["accep".toList]).flatMap (' ' :: ·) := by simp
  rw [htext]
  cases hcons : ws ++ ["accep".toList] with
  | nil => simp at hcons
  | cons v vs =>
      have hspaced : (v :: vs).flatMap (' ' :: ·) = [' '] ++ spaced (v :: vs) ++ [] := by
        rw [← List.nil_append (v :: vs), spaced_around]
        simp
      rw [hspaced, infix_margins_iff (by decide) (by simp) (by simp),
        infix_spaced_iff (by decide) (by decide), ← hcons]
      rintro ⟨w, hw, haccept⟩
      rcases List.mem_append.1 hw with hw | hw
      · exact hws w hw haccept
      · obtain rfl := List.mem_singleton.1 hw
        exact absurd haccept (by decide)

/-- The mark for all others is not read. -/
theorem wordCovers_mark : (valuesIn "!=".toList).any (wordCovers port) = false := by
  have hvalues : valuesIn "!=".toList = ["!=".toList] := by decide
  have hcut : splitOnce ['-'] "!=".toList = none := by decide
  have hnamed : named "!=".toList = none := by decide
  rw [hvalues, List.any_cons, List.any_nil, Bool.or_false, wordCovers, hcut]
  simp only [hnamed]
  rfl

theorem Dport.Legal.any_spec (hd : d.Legal) :
    (d.spec.flatMap valuesIn).any (wordCovers port) = d.ports.any (NftPort.isRead port) := by
  obtain ⟨-, -, -, htext, hports⟩ := hd
  have hvalues : (d.text.flatMap valuesIn).any (wordCovers port) =
      d.ports.any (NftPort.isRead port) := by
    rw [htext, List.any_map, Bool.eq_iff_iff, List.any_eq_true, List.any_eq_true]
    refine exists_congr fun p => and_congr_right fun hp => ?_
    rw [Function.comp_apply, wordCovers_text (hports p hp)]
  rw [Dport.spec, List.flatMap_append, List.any_append, hvalues]
  split
  · rw [List.flatMap_cons, List.flatMap_nil, List.append_nil, wordCovers_mark, Bool.false_or]
  · rfl

/-- **Up to its `accept`**, the port is found among the ports of a rule or behind them. -/
theorem NftRule.Legal.specCovers_restOf (hr : r.Legal) (hd : d ∈ r.dport)
    (hv : r.verdict = some .accept) :
    specCovers port (r.restOf d gap) =
      (d.ports.any (NftPort.isRead port) ||
        ((r.back.flatMap NftMatch.words).flatMap valuesIn).any (wordCovers port)) := by
  have hquiet : ∀ w ∈ r.specOf d, Quiet w := fun w hw => hr.quiet_specOf hd hw
  obtain ⟨rest, hrest⟩ : ∃ rest, r.restOf d gap =
      ((r.specOf d).flatMap (' ' :: ·) ++ [' ']) ++ "accept".toList ++ rest := by
    refine ⟨(if r.semicolon then [';'] else []) ++ r.behind.flatMap (' ' :: ·) ++ gap, ?_⟩
    rw [NftRule.restOf, NftRule.verdictWords, hv]
    simp [NftVerdict.text]
  rw [hrest, specCovers, splitOnce_append (accept_absent fun w hw => (hquiet w hw).2.2.1),
    Option.map_some, Option.getD_some,
    specWords_flatMap fun w hw => (hquiet w hw).1.blank_not_mem, NftRule.specOf,
    List.flatMap_append, List.any_append, (hr.2.1 d hd).any_spec]

end Spec

/-! ## Lines -/

section Lines

variable {text proto w : Str} {line : List Piece} {p : Piece} {r : NftRule} {d : Dport} {port : Nat}

/-- The words of what is neither a rule nor a policy. -/
theorem Piece.Legal.quiet (hp : p.Legal) (hrule : ∀ r, p ≠ .rule r)
    (hpolicy : ∀ drops semicolon, p ≠ .policy drops semicolon) (hw : w ∈ p.words) : Quiet w := by
  have hfixed : ∀ w ∈ ["table".toList, "chain".toList, "hook".toList, "\x7b".toList,
      "\x7d".toList], Quiet w := by decide
  cases p with
  | table words =>
      simp only [Piece.words, List.mem_cons, List.mem_append, List.not_mem_nil, or_false] at hw
      rcases hw with rfl | hw | rfl
      · exact hfixed _ (by simp)
      · exact (hp w hw).1
      · exact hfixed _ (by simp)
  | chain name =>
      simp only [Piece.words, List.mem_cons, List.not_mem_nil, or_false] at hw
      rcases hw with rfl | rfl | rfl
      · exact hfixed _ (by simp)
      · exact hp.1
      · exact hfixed _ (by simp)
  | block words =>
      simp only [Piece.words, List.mem_append, List.mem_singleton] at hw
      rcases hw with hw | rfl
      · exact (hp w hw).1
      · exact hfixed _ (by simp)
  | close => exact hfixed _ (by simp [List.mem_singleton.1 hw])
  | hook front name back =>
      simp only [Piece.words, List.mem_append, List.mem_cons] at hw
      rcases hw with hw | rfl | rfl | hw
      · exact (hp w (by simp [hw])).1
      · exact hfixed _ (by simp)
      · exact (hp _ (by simp)).1
      · exact (hp w (by simp [hw])).1
  | policy drops semicolon => exact absurd rfl (hpolicy drops semicolon)
  | rule r => exact absurd rfl (hrule r)
  | other words => exact (hp w hw).1

/-- The words of a policy. -/
theorem policy_words (drops semicolon : Bool) (hw : w ∈ (Piece.policy drops semicolon).words) :
    IsWord w ∧ '#' ∉ w ∧ ¬ "dport".toList <+: w ∧
      ("policy".toList <:+ w → w = "policy".toList) := by
  revert w
  change ∀ w ∈ (Piece.policy drops semicolon).words, _
  cases drops <;> cases semicolon <;> decide

theorem Piece.Legal.isWord (hp : p.Legal) (hw : w ∈ p.words) : IsWord w ∧ '#' ∉ w := by
  by_cases hrule : ∃ r, p = .rule r
  · obtain ⟨r, rfl⟩ := hrule
    have hshown := NftRule.Legal.shown hp hw
    exact ⟨hshown.isWord, hshown.noComment⟩
  · by_cases hpolicy : ∃ drops semicolon, p = .policy drops semicolon
    · obtain ⟨drops, semicolon, rfl⟩ := hpolicy
      obtain ⟨hword, hcomment, -⟩ := policy_words drops semicolon hw
      exact ⟨hword, hcomment⟩
    · have hquiet := hp.quiet (not_exists.1 hrule)
        (fun drops semicolon h => hpolicy ⟨drops, semicolon, h⟩) hw
      exact ⟨hquiet.1, hquiet.2.1⟩

theorem Piece.Legal.not_dport_start (hp : p.Legal) (hrule : ∀ r, p ≠ .rule r)
    (hw : w ∈ p.words) : ¬ "dport".toList <+: w := by
  by_cases hpolicy : ∃ drops semicolon, p = .policy drops semicolon
  · obtain ⟨drops, semicolon, rfl⟩ := hpolicy
    exact (policy_words drops semicolon hw).2.2.1
  · exact (hp.quiet hrule (fun drops semicolon h => hpolicy ⟨drops, semicolon, h⟩) hw).2.2.2.1

theorem isWord_of_mem_lineWords (h : LegalLine line) (hw : w ∈ lineWords line) :
    IsWord w ∧ '#' ∉ w := by
  obtain ⟨p, hp, hw⟩ := List.mem_flatMap.1 hw
  exact (h.1 p hp).isWord hw

/-- A line without its comment: its words, with white space around them. -/
theorem ReadsLine.uncommented_eq (h : ReadsLine text line) :
    ∃ indent gap, (∀ c ∈ indent, isWhitespace c = true) ∧ (∀ c ∈ gap, isWhitespace c = true) ∧
      uncommented text = indent ++ spaced (lineWords line) ++ gap := by
  obtain ⟨indent, gap, comment, hblank, hcomment, -, rfl⟩ := h.text
  rw [List.forall_mem_append] at hblank
  refine ⟨indent, gap, hblank.1, hblank.2, ?_⟩
  have hblankNe : ∀ c, isWhitespace c = true → c ≠ '#' := by
    rintro c hc rfl
    exact absurd hc (by decide)
  have hbefore : ∀ c ∈ indent ++ spaced (lineWords line) ++ gap, (c != '#') = true := by
    intro c hc
    rw [bne_iff_ne]
    simp only [List.mem_append] at hc
    rcases hc with (hc | hc) | hc
    · exact hblankNe c (hblank.1 c hc)
    · rcases mem_spaced hc with rfl | ⟨w, hw, hc⟩
      · decide
      · rintro rfl
        exact (isWord_of_mem_lineWords h.legal hw).2 hc
    · exact hblankNe c (hblank.2 c hc)
  rw [uncommented, List.takeWhile_append_of_pos hbefore]
  rcases hcomment with rfl | ⟨rest, rfl⟩
  · simp
  · simp

/-- Without a word that `dport` starts, a line is no hit. -/
theorem ReadsLine.acceptHit_eq_false (h : ReadsLine text line) (hproto : proto ∈ portProtocols)
    (hno : ∀ w ∈ lineWords line, ¬ "dport".toList <+: w) : acceptHit proto port text = false := by
  obtain ⟨indent, gap, hindent, hgap, heq⟩ := h.uncommented_eq
  have hnone : ∀ p ∈ "th".toList :: portProtocols,
      splitOnce (p ++ " dport".toList) (uncommented text) = none := by
    intro p hp
    rw [heq, splitOnce_eq_none_iff, key_infix_iff hindent hgap hp fun w hw =>
      (isWord_of_mem_lineWords h.legal hw).1]
    rintro ⟨w, w', hpair, -, hdport⟩
    exact hno w' (hpair.subset (by simp)) hdport
  have hth := hnone "th".toList List.mem_cons_self
  rw [acceptHit, hnone proto (List.mem_cons_of_mem _ hproto), Option.none_or]
  rw [show "th dport".toList = "th".toList ++ " dport".toList from rfl, hth, Bool.and_false]

/-- A rule with ports is a hit where it is taken for one that opens the port. -/
theorem ReadsLine.acceptHit_rule_iff (h : ReadsLine text [.rule r]) (hd : d ∈ r.dport)
    (hproto : proto ∈ portProtocols) :
    acceptHit proto port text = true ↔ r.ReadsOpen proto port := by
  have hlegal : r.Legal := h.legal.1 _ List.mem_cons_self
  obtain ⟨indent, gap, hindent, hgap, heq⟩ := h.uncommented_eq
  rw [lineWords, List.flatMap_singleton] at heq
  have haccept : hasText "accept".toList (uncommented text) = true ↔
      r.verdict = some .accept := by
    rw [hasText_iff, heq, infix_margins_iff (by decide), infix_spaced_iff (by decide) (by decide)]
    · exact hlegal.exists_accept_iff
    · rintro c hc heq
      rw [← Option.some.inj heq] at hc
      exact absurd (hindent _ hc) (by decide)
    · rintro c hc heq
      rw [← Option.some.inj heq] at hc
      exact absurd (hgap _ hc) (by decide)
  have hcut := hlegal.cut_eq hd hindent hgap hproto
  change uncommented text = indent ++ spaced r.words ++ gap at heq
  rw [← heq] at hcut
  rw [acceptHit, Bool.and_eq_true, haccept, NftRule.ReadsOpen]
  refine and_congr_right fun hv => ?_
  have hdport : ∀ d', d' ∈ r.dport ↔ d' = d := by
    intro d'
    rw [Option.mem_def.1 hd, Option.mem_some_iff, eq_comm]
  simp only [hdport, exists_eq_left]
  by_cases hfor : d.IsFor proto
  · rw [if_pos hfor, Option.map_eq_some_iff] at hcut
    obtain ⟨⟨before, rest⟩, hsome, rfl⟩ := hcut
    rw [hsome]
    simp only [hfor, true_and]
    rw [hlegal.specCovers_restOf hd hv, Bool.or_eq_true]
  · rw [if_neg hfor, Option.map_eq_none_iff] at hcut
    rw [hcut]
    exact iff_of_false Bool.false_ne_true fun h => hfor h.1

/-- **A line is a hit** where it is a rule that is taken for one that opens the port. -/
theorem ReadsLine.acceptHit_iff (h : ReadsLine text line) (hproto : proto ∈ portProtocols) :
    acceptHit proto port text = true ↔ ∃ r, .rule r ∈ line ∧ r.ReadsOpen proto port := by
  by_cases hrule : ∃ r, .rule r ∈ line
  · obtain ⟨r, hr⟩ := hrule
    obtain rfl := h.legal.2 _ hr rfl
    have hlegal : r.Legal := h.legal.1 _ hr
    have honly : (∃ r', .rule r' ∈ [Piece.rule r] ∧ r'.ReadsOpen proto port) ↔
        r.ReadsOpen proto port := by simp
    rw [honly]
    cases hd : r.dport with
    | none =>
        -- without ports, no word of the rule starts with `dport`
        have hno : ∀ w ∈ lineWords [.rule r], ¬ "dport".toList <+: w := by
          intro w hw
          have hw : w ∈ r.words := by simpa [lineWords, Piece.words] using hw
          rw [hlegal.words_eq_of_none hd, List.mem_append, List.mem_append] at hw
          rcases hw with hw | hw | hw
          · exact (hlegal.quiet_front hw).2.2.2.1
          · exact not_dport_start_verdict hw
          · exact (hlegal.quiet_behind hw).2.2.2.1
        rw [h.acceptHit_eq_false hproto hno]
        refine iff_of_false Bool.false_ne_true ?_
        rintro ⟨-, d, hmem, -⟩
        rw [hd] at hmem
        cases hmem
    | some d => exact h.acceptHit_rule_iff hd hproto
  · have hno : ∀ w ∈ lineWords line, ¬ "dport".toList <+: w := by
      intro w hw
      obtain ⟨p, hp, hw⟩ := List.mem_flatMap.1 hw
      exact (h.legal.1 p hp).not_dport_start (fun r hr => hrule ⟨r, hr ▸ hp⟩) hw
    rw [h.acceptHit_eq_false hproto hno]
    refine iff_of_false Bool.false_ne_true ?_
    rintro ⟨r, hr, -⟩
    exact hrule ⟨r, hr⟩

/-- **A line turns away** where its words say so to the scan. -/
theorem ReadsLine.dropHit_iff (h : ReadsLine text line) :
    dropHit text = true ↔ InSight (lineWords line) := by
  obtain ⟨indent, gap, hindent, hgap, heq⟩ := h.uncommented_eq
  have hwords : ∀ w ∈ lineWords line, IsWord w :=
    fun w hw => (isWord_of_mem_lineWords h.legal hw).1
  have hblank : ∀ w ∈ lineWords line, ' ' ∉ w := fun w hw => (hwords w hw).blank_not_mem
  obtain ⟨hfirst, hlast⟩ := ends_spaced hwords
  have hreject : " reject".toList <:+: spaced (lineWords line) ↔
      ∃ w ∈ (lineWords line).tail, "reject".toList <+: w := by
    rw [← exists_pair_infix_iff]
    have hpair := infix_pair_spaced_iff (p := []) (q := "reject".toList) hblank (by decide)
      (by decide)
    simp only [List.nil_suffix, true_and] at hpair
    exact hpair
  have hdrop := suffix_spaced_iff (q := "drop".toList) hblank (by decide) (by decide)
  rw [dropHit, heq, trim_margins hindent hgap hfirst hlast]
  simp only [Bool.or_eq_true, beq_iff_eq, List.isSuffixOf_iff_suffix, hasText_iff, hreject,
    InSight, ← hdrop, spaced_eq_iff hwords (by decide : ' ' ∉ "reject".toList) (by decide)]
  constructor
  · rintro (((hone | hreject) | hend) | hin)
    · exact Or.inl (Or.inl hone)
    · exact Or.inr (Or.inl hreject)
    · exact Or.inl (Or.inr hend)
    · exact Or.inr (Or.inr hin)
  · rintro ((hone | hend) | hreject | hin)
    · exact Or.inl (Or.inl (Or.inl hone))
    · exact Or.inl (Or.inr hend)
    · exact Or.inl (Or.inl (Or.inr hreject))
    · exact Or.inr hin

/-- In a text that has words of a policy only in policies, `policy` ends no other word. -/
theorem Piece.Legal.eq_policy (hp : p.Legal) (hw : w ∈ p.words) (hpolicy : "policy".toList <:+ w) :
    w = "policy".toList ∧ ∃ drops semicolon, p = .policy drops semicolon := by
  by_cases hrule : ∃ r, p = .rule r
  · obtain ⟨r, rfl⟩ := hrule
    exact absurd hpolicy (NftRule.Legal.shown hp hw).noPolicy
  · by_cases his : ∃ drops semicolon, p = .policy drops semicolon
    · obtain ⟨drops, semicolon, rfl⟩ := his
      exact ⟨(policy_words drops semicolon hw).2.2.2 hpolicy, drops, semicolon, rfl⟩
    · have hquiet := hp.quiet (not_exists.1 hrule)
        (fun drops semicolon h => his ⟨drops, semicolon, h⟩) hw
      exact absurd hpolicy hquiet.2.2.2.2

/-- Two words of a line say that a policy drops where the line has such a policy. -/
theorem policy_pair_iff (hline : ∀ p ∈ line, p.Legal) :
    (∃ w w', [w, w'] <:+: lineWords line ∧ "policy".toList <:+ w ∧ "drop".toList <+: w') ↔
      ∃ semicolon, .policy true semicolon ∈ line := by
  induction line with
  | nil =>
      refine iff_of_false ?_ (by simp)
      rintro ⟨w, w', h, -⟩
      simpa [lineWords] using h.length_le
  | cons p line ih =>
      have hp : p.Legal := hline p List.mem_cons_self
      rw [lineWords, List.flatMap_cons]
      constructor
      · rintro ⟨w, w', hpair, hpolicy, hdrop⟩
        rcases pair_infix_append hpair with hown | hrest | ⟨hlast, -⟩
        · obtain ⟨-, drops, semicolon, rfl⟩ :=
            hp.eq_policy (hown.subset (by simp)) hpolicy
          have hw' : w' = (if drops then "drop".toList else "accept".toList) ++
              (if semicolon then [';'] else []) := by
            have heq := hown.eq_of_length rfl
            exact (List.cons.inj (List.cons.inj heq).2).1
          cases drops with
          | true => exact ⟨semicolon, List.mem_cons_self⟩
          | false =>
              rw [hw'] at hdrop
              exact absurd (hdrop.subset (by decide : 'd' ∈ "drop".toList))
                (by cases semicolon <;> decide)
        · obtain ⟨semicolon, hmem⟩ :=
            (ih fun q hq => hline q (List.mem_cons_of_mem p hq)).1 ⟨w, w', hrest, hpolicy, hdrop⟩
          exact ⟨semicolon, List.mem_cons_of_mem p hmem⟩
        · obtain ⟨rfl, drops, semicolon, rfl⟩ :=
            hp.eq_policy (List.mem_of_getLast? hlast) hpolicy
          refine absurd hlast ?_
          cases drops <;> cases semicolon <;> decide
      · rintro ⟨semicolon, hmem⟩
        rcases List.mem_cons.1 hmem with rfl | hmem
        · exact ⟨_, _, (List.prefix_append _ _).isInfix, List.suffix_rfl, List.prefix_append _ _⟩
        · obtain ⟨w, w', hpair, hw⟩ :=
            (ih fun q hq => hline q (List.mem_cons_of_mem p hq)).2 ⟨semicolon, hmem⟩
          exact ⟨w, w', hpair.trans (List.suffix_append _ _).isInfix, hw⟩

/-- **A line has `policy drop` in it** where a policy on it drops. -/
theorem ReadsLine.policy_infix_iff (h : ReadsLine text line) :
    "policy drop".toList <:+: text ↔ ∃ semicolon, .policy true semicolon ∈ line := by
  obtain ⟨indent, gap, comment, hblank, hcomment, hno, rfl⟩ := h.text
  have hwords : ∀ w ∈ lineWords line, ' ' ∉ w :=
    fun w hw => (isWord_of_mem_lineWords h.legal hw).1.blank_not_mem
  have hbefore : "policy drop".toList <:+: indent ++ spaced (lineWords line) ++ gap ++ comment ↔
      "policy drop".toList <:+: indent ++ spaced (lineWords line) ++ gap := by
    rcases hcomment with rfl | ⟨rest, rfl⟩
    · rw [List.append_nil]
    · rw [infix_append_cons_iff (by decide)]
      exact or_iff_left fun hrest => hno (hrest.trans (List.suffix_cons '#' rest).isInfix)
  -- `policy drop` has a blank in it, so two words stand side by side there
  rw [hbefore, infix_margins_iff (by decide)]
  · rw [← policy_pair_iff h.legal.1]
    exact infix_pair_spaced_iff (p := "policy".toList) (q := "drop".toList) hwords (by decide)
      (by decide)
  · rintro c hc heq
    rw [← Option.some.inj heq] at hc
    exact absurd (hblank _ (List.mem_append_left gap hc)) (by decide)
  · rintro c hc heq
    rw [← Option.some.inj heq] at hc
    exact absurd (hblank _ (List.mem_append_right indent hc)) (by decide)

end Lines

end DialF.Reach
