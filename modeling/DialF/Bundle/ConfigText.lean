import DialF.Share.DeviceList
import Mathlib.Data.Bool.AllAny

/-!
# Rewriting a config

`render_config` of `bundle.rs` puts new values into the text of a config. For each edit it looks for
the one line with the key and a value on it, and writes the new value behind the key; where a key is
not found once, or the text that comes out does not parse to the edited document, it writes the
document anew. The edited line ends with the new value: a comment behind the old one goes.

The text that is wanted has the new values in place of the old ones and all the rest as it was
(`wantedLine`). `renderConfig_meets_iff` says for which configs and edits it is what comes out.
-/

set_option autoImplicit false

namespace DialF.Bundle

open DialF.Lib DialF.Share

/-! ## The editor -/

/-- The apostrophe. -/
def apostrophe : Char := Char.ofNat 39

/-- A character behind a backslash. -/
def escaped (c : Char) (s : Str) : Str := s.flatMap fun d => if d = c then ['\\', d] else [d]

/-- A string as a double-quoted YAML scalar. -/
def yamlQuote (s : Str) : Str := '"' :: escaped '"' (escaped '\\' s) ++ ['"']

/-- An argv as a single-line YAML flow sequence, every element quoted. -/
def yamlFlow (items : List Str) : Str :=
  '[' :: List.intercalate [',', ' '] (items.map yamlQuote) ++ [']']

/-- If `line` is `<indent><key>: <scalar>` (key optionally quoted), where the value starts. -/
def lineValueSpan (line key : Str) : Option Nat :=
  let rest := line.dropWhile isWhitespace
  (((stripPrefix ('"' :: key ++ ['"']) rest).or
      (stripPrefix (apostrophe :: key ++ [apostrophe]) rest)).or (stripPrefix key rest)).bind
    fun afterKey =>
      (stripPrefix [':'] (afterKey.dropWhile isWhitespace)).bind fun afterColon =>
        let value := afterColon.dropWhile isWhitespace
        -- no inline scalar on this line (block value / answer-only null)
        if value = [] ∨ value.head? = some '#' then none else some (line.length - value.length)

/-- The lines with the key and a value. -/
def hits (key : Str) (ls : List Str) : List Nat :=
  (List.range ls.length).filter fun i => (ls[i]?.bind (lineValueSpan · key)).isSome

/-- The edits one by one, each on the one line that its key hits. -/
def editLines : List (Str × Str) → List Str → Option (List Str)
  | [], ls => some ls
  | (key, new) :: edits, ls =>
      match hits key ls with
      | [i] =>
          (ls[i]?).bind fun line => (lineValueSpan line key).bind fun n =>
            editLines edits (ls.set i (line.take n ++ new))
      | _ => none

/-- `lines.join("\n") + "\n"`. -/
def joined (ls : List Str) : Str := List.intercalate ['\n'] ls ++ ['\n']

section Render

variable {V : Type} [DecidableEq V] (parse : Str → Option V) (dump : V → Option Str)

/-- `apply_line_edits`: the edited text, when it parses to what is expected. -/
def applyLineEdits (original : Str) (edits : List (Str × Str)) (expected : V) : Option Str :=
  (editLines edits (lines original)).bind fun ls =>
    if parse (joined ls) = some expected then some (joined ls) else none

/-- Render a rewritten config: the edited lines, or a clean dump of the document. -/
def renderConfig (original : Str) (edits : List (Str × Str)) (expected : V) : Option Str :=
  (applyLineEdits parse original edits expected).or (dump expected)

end Render

/-! ## Edits -/

/-- What export and import write: a string, or an argv. -/
inductive NewValue where
  | text (s : Str)
  | argv (items : List Str)

/-- How a new value is written into its line. -/
def NewValue.yaml : NewValue → Str
  | .text s => yamlQuote s
  | .argv items => yamlFlow items

/-- An edit of the document: the key as it stands in the file, whether YAML reads it as a string,
and not as a number, and what its value becomes. -/
structure Edit where
  key : Str
  isString : Bool
  value : NewValue

/-- The edit of the lines: a key that is no string is not known by its text. -/
def Edit.pair (e : Edit) : Str × Str := (if e.isString then e.key else ['?'], e.value.yaml)

/-- A phone number, or the name of a setting. -/
structure IsKey (key : Str) : Prop where
  start : ∃ c s, key = c :: s ∧ isWhitespace c = false
  plain : ∀ c ∈ key, c ≠ ':' ∧ c ≠ '"' ∧ c ≠ apostrophe

/-! ## Lines -/

/-- Nothing but whitespace. -/
def Blank (s : Str) : Prop := ∀ c ∈ s, isWhitespace c = true

/-- What stands in front of a value: the key, quoted or not, at any indentation, and its colon. -/
structure Heads (key before : Str) : Prop where
  split : ∃ indent form gap gap', before = indent ++ form ++ gap ++ ':' :: gap' ∧
    Blank indent ∧ Blank gap ∧ Blank gap' ∧
    form ∈ [key, '"' :: key ++ ['"'], apostrophe :: key ++ [apostrophe]]

/-- A value, not a comment. -/
def StartsValue (rest : Str) : Prop :=
  ∃ c s, rest = c :: s ∧ isWhitespace c = false ∧ c ≠ '#'

/-- The key stands on the line with a value. -/
structure Stands (key line before rest : Str) : Prop where
  split : line = before ++ rest
  heads : Heads key before
  value : StartsValue rest

/-- The key stands on exactly one of the lines. -/
def StandsOnce (key : Str) (ls : List Str) : Prop :=
  ∃ i : Nat, ∀ j : Nat, (∃ line before rest, ls[j]? = some line ∧ Stands key line before rest) ↔ j = i

/-! ## Values -/

/-- The length of what is left of a double-quoted scalar. -/
def doubleEnd : Str → Nat
  | [] => 0
  | '"' :: _ => 1
  | ['\\'] => 1
  | '\\' :: _ :: s => 2 + doubleEnd s
  | _ :: s => 1 + doubleEnd s

/-- The length of what is left of a single-quoted scalar; two apostrophes are one in it. -/
def singleEnd : Str → Nat
  | [] => 0
  | [_] => 1
  | c :: d :: s =>
      if c = apostrophe then if d = apostrophe then 2 + singleEnd s else 1
      else 1 + singleEnd (d :: s)

/-- The quotes that the next character of a flow sequence is in. -/
inductive Quotes where
  | none
  | single
  | double
  | escape

/-- The length of what is left of a flow sequence or mapping, `depth` of them open. -/
def flowEnd : Quotes → Nat → Str → Nat
  | _, _, [] => 0
  | .escape, depth, _ :: s => 1 + flowEnd .double depth s
  | .double, depth, c :: s =>
      1 + flowEnd (if c = '"' then .none else if c = '\\' then .escape else .double) depth s
  | .single, depth, c :: s => 1 + flowEnd (if c = apostrophe then .none else .single) depth s
  | .none, depth, c :: s =>
      if c = '"' then 1 + flowEnd .double depth s
      else if c = apostrophe then 1 + flowEnd .single depth s
      else if c = '[' ∨ c = Char.ofNat 123 then 1 + flowEnd .none (depth + 1) s
      else if c = ']' ∨ c = Char.ofNat 125 then
        if depth ≤ 1 then 1 else 1 + flowEnd .none (depth - 1) s
      else 1 + flowEnd .none depth s

/-- A plain scalar and the blanks behind it, down to a comment. -/
def plainPart : Str → Str
  | [] => []
  | c :: s => if isWhitespace c ∧ s.head? = some '#' then [] else c :: plainPart s

/-- The length of the value at the head of a text. -/
def valueLength (s : Str) : Nat :=
  match s with
  | [] => 0
  | c :: rest =>
      if c = '"' then 1 + doubleEnd rest
      else if c = apostrophe then 1 + singleEnd rest
      else if c = '[' ∨ c = Char.ofNat 123 then flowEnd .none 0 s
      else ((plainPart s).rdropWhile isWhitespace).length

/-- What stands behind the value at the head of a text: blanks, and a comment. -/
def behindValue (s : Str) : Str := s.drop (valueLength s)

/-! ## What is wanted -/

/-- The edit of a line, and where its value starts; of two the last one. -/
def placeOf (edits : List Edit) (line : Str) : Option (Edit × Nat) :=
  edits.reverse.findSome? fun e => (lineValueSpan line e.key).map (Prod.mk e)

/-- The line with its new value, and all else as it was. -/
def wantedLine (edits : List Edit) (line : Str) : Str :=
  match placeOf edits line with
  | none => line
  | some (e, n) => line.take n ++ e.value.yaml ++ behindValue (line.drop n)

/-- The line with its new value at its end. -/
def bareLine (edits : List Edit) (line : Str) : Str :=
  match placeOf edits line with
  | none => line
  | some (e, n) => line.take n ++ e.value.yaml

/-- The text of a file with these lines, each with a line feed at its end; at the end of the last
one it may be missing. -/
structure IsText (original : Str) (ls : List Str) : Prop where
  plain : ∀ line ∈ ls, '\n' ∉ line ∧ '\r' ∉ line
  text : (ls ≠ [] ∧ original = joined ls) ∨
    (original = List.intercalate ['\n'] ls ∧ ls.getLast? ≠ some [])

/-! ## Keys on lines -/

section Keys

variable {key line before rest new : Str} {n : Nat}

theorem dropWhile_blank {s t : Str} (hs : Blank s) :
    (s ++ t).dropWhile isWhitespace = t.dropWhile isWhitespace :=
  List.dropWhile_append_of_pos hs

theorem dropWhile_of_startsValue (h : StartsValue rest) :
    rest.dropWhile isWhitespace = rest := by
  obtain ⟨c, s, rfl, hc, -⟩ := h
  exact List.dropWhile_cons_of_neg (by simp [hc])

theorem not_colon_of_blank {s : Str} (hs : Blank s) : ':' ∉ s := by
  intro hmem
  exact absurd (hs ':' hmem) (by decide)

/-- In front of the colon there is no other. -/
theorem Heads.cut (hkey : IsKey key) (h : Heads key before) :
    ∃ front gap, before = front ++ ':' :: gap ∧ ':' ∉ front ∧ Blank gap := by
  obtain ⟨indent, form, gap, gap', rfl, hindent, hgap, hgap', hform⟩ := h.split
  refine ⟨indent ++ form ++ gap, gap', rfl, ?_, hgap'⟩
  have hkey' : ':' ∉ key := fun hmem => (hkey.plain ':' hmem).1 rfl
  have hform' : ':' ∉ form := by
    have hapos : ':' ≠ apostrophe := by decide
    simp only [List.mem_cons, List.not_mem_nil, or_false] at hform
    rcases hform with rfl | rfl | rfl
    · exact hkey'
    · simp [hkey']
    · simp [hkey', hapos]
  simp [not_colon_of_blank hindent, hform', not_colon_of_blank hgap]

/-- A value starts at one place of a line only, whatever the key is. -/
theorem Stands.unique {key' before' rest' : Str} (hkey : IsKey key) (hkey' : IsKey key')
    (h : Stands key line before rest) (h' : Stands key' line before' rest') :
    before = before' ∧ rest = rest' := by
  obtain ⟨front, gap, hbefore, hfront, hgap⟩ := h.heads.cut hkey
  obtain ⟨front', gap', hbefore', hfront', hgap'⟩ := h'.heads.cut hkey'
  have hline : front ++ ':' :: (gap ++ rest) = front' ++ ':' :: (gap' ++ rest') := by
    have heq := h.split.symm.trans h'.split
    rw [hbefore, hbefore'] at heq
    simpa using heq
  have hcolon : ∀ {f t : Str}, ':' ∉ f → (f ++ ':' :: t).takeWhile (· != ':') = f := by
    intro f t hf
    rw [List.takeWhile_append_of_pos, List.takeWhile_cons_of_neg (by simp), List.append_nil]
    intro c hc
    simp only [bne_iff_ne, ne_eq]
    rintro rfl
    exact hf hc
  have heq : front = front' := by
    rw [← hcolon hfront, hline, hcolon hfront']
  subst heq
  have htail : gap ++ rest = gap' ++ rest' := by
    simpa using hline
  have hrest : rest = rest' := by
    rw [← dropWhile_of_startsValue h.value, ← dropWhile_blank hgap, htail, dropWhile_blank hgap',
      dropWhile_of_startsValue h'.value]
  subst hrest
  refine ⟨?_, rfl⟩
  rw [hbefore, hbefore', List.append_cancel_right htail]

/-- Another value in the place of the old one. -/
theorem Stands.replace (h : Stands key line before rest) (hnew : StartsValue new) :
    Stands key (before ++ new) before new :=
  ⟨rfl, h.heads, hnew⟩

/-- The forms of a key. -/
def forms (key : Str) : List Str :=
  [key, '"' :: key ++ ['"'], apostrophe :: key ++ [apostrophe]]

/-- What follows a key, in the first form that fits. -/
def afterForm (key s : Str) : Option Str :=
  ((stripPrefix ('"' :: key ++ ['"']) s).or
    (stripPrefix (apostrophe :: key ++ [apostrophe]) s)).or (stripPrefix key s)

theorem stripPrefix_cons_of_ne {c d : Char} (h : c ≠ d) (p s : Str) :
    stripPrefix (c :: p) (d :: s) = none := by
  rw [stripPrefix_eq_none_iff]
  intro r heq
  exact h (List.cons.inj heq).1.symm

/-- A form of a key is found, and starts with no blank. -/
theorem afterForm_append {form : Str} (hkey : IsKey key) (hform : form ∈ forms key) (t : Str) :
    afterForm key (form ++ t) = some t ∧ (form ++ t).dropWhile isWhitespace = form ++ t := by
  obtain ⟨c, k, rfl, hc⟩ := hkey.start
  obtain ⟨-, hquote, hapos⟩ := hkey.plain c (by simp)
  simp only [forms, List.mem_cons, List.not_mem_nil, or_false] at hform
  rcases hform with rfl | rfl | rfl
  · refine ⟨?_, List.dropWhile_cons_of_neg (by simp [hc])⟩
    rw [afterForm, stripPrefix_append, List.cons_append, List.cons_append, List.cons_append,
      List.cons_append, stripPrefix_cons_of_ne hquote.symm, stripPrefix_cons_of_ne hapos.symm]
    rfl
  · refine ⟨?_, List.dropWhile_cons_of_neg (by decide)⟩
    rw [afterForm, stripPrefix_append, Option.some_or, Option.some_or]
  · refine ⟨?_, List.dropWhile_cons_of_neg (by decide)⟩
    have hnone : stripPrefix ('"' :: (c :: k) ++ ['"'])
        (apostrophe :: (c :: k) ++ [apostrophe] ++ t) = none :=
      stripPrefix_cons_of_ne (by decide) _ _
    rw [afterForm, hnone, stripPrefix_append, Option.none_or, Option.some_or]

theorem form_of_afterForm {s t : Str} (h : afterForm key s = some t) :
    ∃ form ∈ forms key, s = form ++ t := by
  rw [afterForm, Option.or_eq_some_iff, Option.or_eq_some_iff] at h
  rcases h with (h | ⟨-, h⟩) | ⟨-, h⟩
  · exact ⟨_, by simp [forms], stripPrefix_eq_some_iff.1 h⟩
  · exact ⟨_, by simp [forms], stripPrefix_eq_some_iff.1 h⟩
  · exact ⟨_, by simp [forms], stripPrefix_eq_some_iff.1 h⟩

theorem lineValueSpan_of_stands (hkey : IsKey key) (h : Stands key line before rest) :
    lineValueSpan line key = some before.length := by
  obtain ⟨indent, form, gap, gap', rfl, hindent, hgap, hgap', hform⟩ := h.heads.split
  obtain ⟨c, s, hrest, -, hcomment⟩ := h.value
  obtain ⟨hafter, hstart⟩ := afterForm_append hkey hform (gap ++ (':' :: (gap' ++ rest)))
  have hline : line = indent ++ (form ++ (gap ++ (':' :: (gap' ++ rest)))) := by
    rw [h.split]
    simp
  have hcolon : (gap ++ ':' :: (gap' ++ rest)).dropWhile isWhitespace =
      [':'] ++ (gap' ++ rest) := by
    rw [dropWhile_blank hgap]
    rfl
  have hvalue : (gap' ++ rest).dropWhile isWhitespace = rest := by
    rw [dropWhile_blank hgap', dropWhile_of_startsValue h.value]
  have hnot : ¬ (rest = [] ∨ rest.head? = some '#') := by
    simp [hrest, hcomment]
  have hspan : lineValueSpan line key = some (line.length - rest.length) := by
    rw [afterForm] at hafter
    simp only [lineValueSpan, hline, dropWhile_blank hindent, hstart, hafter, Option.bind_some,
      hcolon, stripPrefix_append, hvalue, if_neg hnot]
  rw [hspan, h.split, List.length_append, Nat.add_sub_cancel]

theorem stands_of_lineValueSpan (h : lineValueSpan line key = some n) :
    ∃ before rest, Stands key line before rest ∧ n = before.length := by
  obtain ⟨afterKey, hafter, h⟩ := Option.bind_eq_some_iff.1 h
  obtain ⟨afterColon, hcolon, h⟩ := Option.bind_eq_some_iff.1 h
  obtain ⟨hnot, hn⟩ := Option.ite_none_left_eq_some.1 h
  obtain ⟨form, hform, hrest⟩ := form_of_afterForm hafter
  rw [stripPrefix_eq_some_iff] at hcolon
  -- the blanks around the key, and behind the colon
  have hcut : ∀ s t : Str, s.dropWhile isWhitespace = t →
      ∃ blank, Blank blank ∧ s = blank ++ t := by
    rintro s t rfl
    exact ⟨s.takeWhile isWhitespace, fun c hc => List.mem_takeWhile_imp hc,
      List.takeWhile_append_dropWhile.symm⟩
  obtain ⟨indent, hindent, hline⟩ := hcut line _ hrest
  obtain ⟨gap, hgap, hkey⟩ := hcut afterKey _ hcolon
  obtain ⟨gap', hgap', hvalue⟩ := hcut afterColon _ rfl
  have hstart : StartsValue (afterColon.dropWhile isWhitespace) := by
    obtain ⟨hne, hcomment⟩ := not_or.1 hnot
    obtain ⟨c, s, hcs⟩ := List.exists_cons_of_ne_nil hne
    refine ⟨c, s, hcs, ?_, ?_⟩
    · have hhead := List.head_dropWhile_not (p := isWhitespace) (l := afterColon) hne
      simpa [hcs] using hhead
    · rintro rfl
      exact hcomment (by rw [hcs]; rfl)
  generalize afterColon.dropWhile isWhitespace = rest at hn hvalue hstart
  subst hline hkey hvalue
  refine ⟨indent ++ form ++ gap ++ ':' :: gap', rest, ⟨by simp, ⟨indent, form, gap, gap', rfl,
    hindent, hgap, hgap', hform⟩, hstart⟩, ?_⟩
  obtain rfl := Option.some.inj hn
  simp only [List.length_append, List.length_cons, List.length_nil]
  omega

/-- **Where a key is found.** -/
theorem lineValueSpan_eq_some_iff (hkey : IsKey key) :
    lineValueSpan line key = some n ↔
      ∃ before rest, Stands key line before rest ∧ n = before.length := by
  constructor
  · exact stands_of_lineValueSpan
  · rintro ⟨before, rest, h, rfl⟩
    exact lineValueSpan_of_stands hkey h

/-- A new value changes neither which keys stand on the line nor where the value starts. -/
theorem lineValueSpan_replace {key' : Str} (hkey : IsKey key) (hkey' : IsKey key')
    (h : lineValueSpan line key = some n) (hnew : StartsValue new) :
    lineValueSpan (line.take n ++ new) key' = lineValueSpan line key' ∧
      ∀ m, lineValueSpan line key' = some m → m = n := by
  obtain ⟨before, rest, hstands, rfl⟩ := stands_of_lineValueSpan h
  have htake : line.take before.length = before := by
    rw [hstands.split, List.take_left]
  rw [htake]
  have hold := hstands.replace hnew
  constructor
  · apply Option.ext
    intro m
    rw [lineValueSpan_eq_some_iff hkey', lineValueSpan_eq_some_iff hkey']
    constructor
    · rintro ⟨before', rest', h', rfl⟩
      obtain ⟨rfl, rfl⟩ := hold.unique hkey hkey' h'
      exact ⟨before, rest, ⟨hstands.split, h'.heads, hstands.value⟩, rfl⟩
    · rintro ⟨before', rest', h', rfl⟩
      obtain ⟨rfl, rfl⟩ := hstands.unique hkey hkey' h'
      exact ⟨before, new, h'.replace hnew, rfl⟩
  · intro m hm
    obtain ⟨before', rest', h', rfl⟩ := stands_of_lineValueSpan hm
    rw [(hstands.unique hkey hkey' h').1]

end Keys

/-! ## Edits in turn -/

section Edits

variable {edits done : List Edit} {e : Edit} {line key : Str} {ls : List Str} {n : Nat}

theorem startsValue_yaml (v : NewValue) : StartsValue v.yaml := by
  cases v with
  | text s => exact ⟨'"', _, rfl, by decide, by decide⟩
  | argv items => exact ⟨'[', _, rfl, by decide, by decide⟩

theorem placeOf_append (done : List Edit) (e : Edit) (line : Str) :
    placeOf (done ++ [e]) line =
      ((lineValueSpan line e.key).map (Prod.mk e)).or (placeOf done line) := by
  rw [placeOf, List.reverse_append, List.reverse_singleton, List.singleton_append,
    List.findSome?_cons]
  cases lineValueSpan line e.key <;> rfl

theorem placeOf_eq_some (h : placeOf edits line = some (e, n)) :
    e ∈ edits ∧ lineValueSpan line e.key = some n := by
  obtain ⟨e', he', hspan⟩ := List.exists_of_findSome?_eq_some h
  obtain ⟨m, hm, heq⟩ := Option.map_eq_some_iff.1 hspan
  obtain ⟨rfl, rfl⟩ := Prod.mk.inj heq
  exact ⟨List.mem_reverse.1 he', hm⟩

/-- The line has its keys where they were. -/
theorem lineValueSpan_bareLine (hdone : ∀ e ∈ done, IsKey e.key) (hkey : IsKey key) (line : Str) :
    lineValueSpan (bareLine done line) key = lineValueSpan line key ∧
      ∀ n, lineValueSpan line key = some n → (bareLine done line).take n = line.take n := by
  rw [bareLine]
  cases hplace : placeOf done line with
  | none => exact ⟨rfl, fun _ _ => rfl⟩
  | some place =>
      obtain ⟨e, m⟩ := place
      obtain ⟨he, hm⟩ := placeOf_eq_some hplace
      obtain ⟨hsame, hone⟩ :=
        lineValueSpan_replace (hdone e he) hkey hm (startsValue_yaml e.value)
      refine ⟨hsame, ?_⟩
      intro n hn
      obtain rfl := hone n hn
      obtain ⟨before, rest, hstands, rfl⟩ := stands_of_lineValueSpan hn
      have htake : line.take before.length = before := by
        rw [hstands.split, List.take_left]
      dsimp only
      rw [htake, List.take_left]

/-- The lines with a key are the same ones. -/
theorem hits_bareLine (hdone : ∀ e ∈ done, IsKey e.key) (hkey : IsKey key) (ls : List Str) :
    hits key (ls.map (bareLine done)) = hits key ls := by
  rw [hits, hits, List.length_map]
  apply List.filter_congr
  intro i _
  rw [List.getElem?_map]
  cases ls[i]? with
  | none => rfl
  | some line => simp [(lineValueSpan_bareLine hdone hkey line).1]

theorem mem_hits {i : Nat} :
    i ∈ hits key ls ↔ ∃ line, ls[i]? = some line ∧ (lineValueSpan line key).isSome = true := by
  rw [hits, List.mem_filter, List.mem_range]
  constructor
  · rintro ⟨hlt, hspan⟩
    rw [List.getElem?_eq_getElem hlt] at hspan ⊢
    exact ⟨_, rfl, hspan⟩
  · rintro ⟨line, hline, hspan⟩
    refine ⟨(List.getElem?_eq_some_iff.1 hline).1, ?_⟩
    rw [hline]
    exact hspan

theorem isSome_lineValueSpan_iff (hkey : IsKey key) :
    (lineValueSpan line key).isSome = true ↔ ∃ before rest, Stands key line before rest := by
  rw [Option.isSome_iff_exists]
  constructor
  · rintro ⟨n, hn⟩
    obtain ⟨before, rest, h, -⟩ := stands_of_lineValueSpan hn
    exact ⟨before, rest, h⟩
  · rintro ⟨before, rest, h⟩
    exact ⟨_, lineValueSpan_of_stands hkey h⟩

/-- A key that stands on one line is found there. -/
theorem hits_of_standsOnce (hkey : IsKey key) (h : StandsOnce key ls) :
    ∃ i line n, hits key ls = [i] ∧ ls[i]? = some line ∧ lineValueSpan line key = some n ∧
      ∀ j line', ls[j]? = some line' → j ≠ i → lineValueSpan line' key = none := by
  obtain ⟨i, hi⟩ := h
  have hmem : ∀ j, j ∈ hits key ls ↔ j = i := by
    intro j
    rw [mem_hits, ← hi j]
    constructor
    · rintro ⟨line, hline, hspan⟩
      obtain ⟨before, rest, hstands⟩ := (isSome_lineValueSpan_iff hkey).1 hspan
      exact ⟨line, before, rest, hline, hstands⟩
    · rintro ⟨line, before, rest, hline, hstands⟩
      exact ⟨line, hline, (isSome_lineValueSpan_iff hkey).2 ⟨before, rest, hstands⟩⟩
  have hnodup : (hits key ls).Nodup := List.nodup_range.filter _
  have hone : hits key ls = [i] := by
    apply List.perm_singleton.1
    rw [List.perm_ext_iff_of_nodup hnodup (by simp)]
    simpa using hmem
  obtain ⟨line, hline, hspan⟩ := mem_hits.1 ((hmem i).2 rfl)
  obtain ⟨n, hn⟩ := Option.isSome_iff_exists.1 hspan
  refine ⟨i, line, n, hone, hline, hn, ?_⟩
  intro j line' hline' hne
  rw [← Option.not_isSome_iff_eq_none]
  intro hspan'
  exact hne ((hmem j).1 (mem_hits.2 ⟨line', hline', hspan'⟩))

/-- **One edit**: the line with its key gets the new value, and the others stay. -/
theorem editLines_cons (hdone : ∀ e ∈ done, IsKey e.key) (hkey : IsKey e.key)
    (hstring : e.isString = true) (honce : StandsOnce e.key ls) (rest : List (Str × Str)) :
    editLines (e.pair :: rest) (ls.map (bareLine done)) =
      editLines rest (ls.map (bareLine (done ++ [e]))) := by
  obtain ⟨i, line, n, hhits, hline, hspan, hothers⟩ := hits_of_standsOnce hkey honce
  obtain ⟨hsame, htake⟩ := lineValueSpan_bareLine hdone hkey line
  have hpair : e.pair = (e.key, e.value.yaml) := by
    rw [Edit.pair, if_pos hstring]
  have hcurrent : (ls.map (bareLine done))[i]? = some (bareLine done line) := by
    rw [List.getElem?_map, hline]
    rfl
  have hedited : bareLine (done ++ [e]) line = line.take n ++ e.value.yaml := by
    rw [bareLine, placeOf_append, hspan]
    rfl
  have hset : (ls.map (bareLine done)).set i (line.take n ++ e.value.yaml) =
      ls.map (bareLine (done ++ [e])) := by
    apply List.ext_getElem?
    intro j
    rw [List.getElem?_set, List.getElem?_map, List.getElem?_map]
    by_cases hj : i = j
    · subst hj
      have hlt : i < (ls.map (bareLine done)).length := (List.getElem?_eq_some_iff.1 hcurrent).1
      rw [if_pos rfl, if_pos hlt, hline, Option.map_some, hedited]
    · rw [if_neg hj]
      cases hline' : ls[j]? with
      | none => rfl
      | some line' =>
          have hnone := hothers j line' hline' (Ne.symm hj)
          rw [Option.map_some, Option.map_some, bareLine, bareLine, placeOf_append, hnone]
          rfl
  rw [hpair, editLines, hits_bareLine hdone hkey, hhits]
  simp only [hcurrent, Option.bind_some, hsame, hspan, htake n hspan, hset]

/-- **All edits**, by induction on them. -/
theorem editLines_of_strings (done : List Edit)
    (hdone : ∀ e ∈ done, IsKey e.key) (hkeys : ∀ e ∈ edits, IsKey e.key)
    (hstrings : ∀ e ∈ edits, e.isString = true) (honce : ∀ e ∈ edits, StandsOnce e.key ls) :
    editLines (edits.map Edit.pair) (ls.map (bareLine done)) =
      some (ls.map (bareLine (done ++ edits))) := by
  induction edits generalizing done with
  | nil => rw [List.map_nil, editLines, List.append_nil]
  | cons e edits ih =>
      have hkey := hkeys e (by simp)
      have hdone' : ∀ e' ∈ done ++ [e], IsKey e'.key := by
        intro e' he'
        rcases List.mem_append.1 he' with he' | he'
        · exact hdone e' he'
        · rwa [List.mem_singleton.1 he']
      rw [List.map_cons, editLines_cons hdone hkey (hstrings e (by simp)) (honce e (by simp)),
        ih _ hdone' (fun e he => hkeys e (by simp [he])) (fun e he => hstrings e (by simp [he]))
          (fun e he => honce e (by simp [he]))]
      simp

theorem isKey_unknown : IsKey ['?'] where
  start := ⟨'?', [], rfl, by decide⟩
  plain := List.all_iff_forall_prop.1 (by decide)

/-- With a key that is no string the lines are not edited. -/
theorem editLines_of_number (done : List Edit)
    (hdone : ∀ e ∈ done, IsKey e.key) (hkeys : ∀ e ∈ edits, IsKey e.key)
    (hnumber : ∃ e ∈ edits, e.isString = false) (honce : ∀ e ∈ edits, StandsOnce e.key ls)
    (hunknown : ∀ line ∈ ls, ∀ before rest, ¬ Stands ['?'] line before rest) :
    editLines (edits.map Edit.pair) (ls.map (bareLine done)) = none := by
  induction edits generalizing done with
  | nil =>
      obtain ⟨e, he, -⟩ := hnumber
      simp at he
  | cons e edits ih =>
      have hkey := hkeys e (by simp)
      cases hstring : e.isString with
      | false =>
          have hnone : hits ['?'] ls = [] := by
            rw [List.eq_nil_iff_forall_not_mem]
            intro i hi
            obtain ⟨line, hline, hspan⟩ := mem_hits.1 hi
            obtain ⟨before, rest, hstands⟩ := (isSome_lineValueSpan_iff isKey_unknown).1 hspan
            exact hunknown line (List.mem_of_getElem? hline) before rest hstands
          have hpair : e.pair = (['?'], e.value.yaml) := by
            rw [Edit.pair, hstring]
            rfl
          rw [List.map_cons, hpair, editLines, hits_bareLine hdone isKey_unknown, hnone]
      | true =>
          have hdone' : ∀ e' ∈ done ++ [e], IsKey e'.key := by
            intro e' he'
            rcases List.mem_append.1 he' with he' | he'
            · exact hdone e' he'
            · rwa [List.mem_singleton.1 he']
          obtain ⟨e', he', hfalse⟩ := hnumber
          have hmem : e' ∈ edits := by
            refine (List.mem_cons.1 he').resolve_left ?_
            rintro rfl
            rw [hstring] at hfalse
            cases hfalse
          rw [List.map_cons, editLines_cons hdone hkey hstring (honce e (by simp))]
          exact ih _ hdone' (fun e he => hkeys e (by simp [he])) ⟨e', hmem, hfalse⟩
            (fun e he => honce e (by simp [he]))

end Edits

/-! ## Texts -/

section Texts

variable {original : Str} {ls : List Str} {edits : List Edit}

theorem intercalate_cons_cons (l l' : Str) (ls : List Str) :
    List.intercalate ['\n'] (l :: l' :: ls) = l ++ '\n' :: List.intercalate ['\n'] (l' :: ls) := by
  simp [List.intercalate]

/-- Each line with its line feed. -/
theorem joined_eq (hne : ls ≠ []) : joined ls = ls.flatMap (· ++ ['\n']) := by
  rw [joined]
  induction ls with
  | nil => exact absurd rfl hne
  | cons l ls ih =>
      cases ls with
      | nil => simp [List.intercalate]
      | cons l' ls =>
          rw [intercalate_cons_cons, List.flatMap_cons, ← ih (by simp)]
          simp

theorem linesGo_of_not_mem {word s : Str} (hs : '\n' ∉ s) (hne : word ++ s ≠ []) :
    linesGo word s = [word ++ s] := by
  induction s generalizing word with
  | nil =>
      rw [linesGo, if_neg (by simpa using hne), List.append_nil]
  | cons c s ih =>
      have hc : c ≠ '\n' := by
        rintro rfl
        exact hs (by simp)
      rw [linesGo, if_neg hc, ih (fun h => hs (by simp [h])) (by simp)]
      simp

/-- The lines of a text are its lines. -/
theorem lines_of_isText (h : IsText original ls) : lines original = ls := by
  obtain ⟨hplain, ⟨hne, rfl⟩ | ⟨rfl, hlast⟩⟩ := h
  · rw [joined_eq hne, lines_flatMap_newline fun line hline => (hplain line hline).1]
    exact (List.map_congr_left fun line hline => stripCr_of_not_mem (hplain line hline).2).trans
      (List.map_id ls)
  · induction ls with
    | nil => rfl
    | cons l ls ih =>
        obtain ⟨hfeed, hcr⟩ := hplain l (by simp)
        cases ls with
        | nil =>
            have hl : l ≠ [] := by
              rintro rfl
              simp at hlast
            have hsingle : List.intercalate ['\n'] [l] = l := by simp [List.intercalate]
            rw [hsingle, lines, linesGo_of_not_mem hfeed (by simpa using hl), List.nil_append]
        | cons l' ls =>
            have hrest := ih (fun line hline => hplain line (by simp [hline]))
              (by simpa using hlast)
            rw [intercalate_cons_cons, lines, linesGo_append_newline hfeed, List.nil_append,
              stripCr_of_not_mem hcr, hrest]

/-- A text with a longer line, and no shorter one, is longer. -/
theorem length_joined_lt {f g : Str → Str} (hle : ∀ l ∈ ls, (f l).length ≤ (g l).length)
    (hlt : ∃ l ∈ ls, (f l).length < (g l).length) :
    (joined (ls.map f)).length < (joined (ls.map g)).length := by
  obtain ⟨l, hl, hlt⟩ := hlt
  have hne : ls ≠ [] := List.ne_nil_of_mem hl
  rw [joined_eq (by simpa using hne), joined_eq (by simpa using hne)]
  have hmono : ∀ ls : List Str, (∀ l ∈ ls, (f l).length ≤ (g l).length) →
      ((ls.map f).flatMap (· ++ ['\n'])).length ≤ ((ls.map g).flatMap (· ++ ['\n'])).length := by
    intro ls hle
    induction ls with
    | nil => exact Nat.le_refl _
    | cons l ls ih =>
        have hhead := hle l (by simp)
        have htail := ih fun l hl => hle l (by simp [hl])
        simp only [List.map_cons, List.flatMap_cons, List.length_append] at htail ⊢
        omega
  obtain ⟨before, after, rfl⟩ := List.append_of_mem hl
  have hbefore := hmono before fun l hl => hle l (by simp [hl])
  have hafter := hmono after fun l hl => hle l (by simp [hl])
  simp only [List.map_append, List.map_cons, List.flatMap_append, List.flatMap_cons,
    List.length_append]
  omega

end Texts

/-! ## The rendered config -/

section Meets

variable {V : Type} [DecidableEq V] {parse : Str → Option V} {dump : V → Option Str}
  {original : Str} {ls : List Str} {edits : List Edit} {expected : V}

/-- The text that is wanted. -/
def wantedText (edits : List Edit) (ls : List Str) : Str := joined (ls.map (wantedLine edits))

/-- What comes out is the wanted text, and means the edited document. -/
def Meets (parse : Str → Option V) (dump : V → Option Str) (original : Str) (ls : List Str)
    (edits : List Edit) (expected : V) : Prop :=
  ∃ text, renderConfig parse dump original (edits.map Edit.pair) expected = some text ∧
    parse text = some expected ∧ text = wantedText edits ls

/-- A config and its edits: every key stands on one line with a value, and where an edited key is no
string, no line has the key `?` that it is looked for by. -/
structure Editable (original : Str) (ls : List Str) (edits : List Edit) : Prop where
  text : IsText original ls
  keys : ∀ e ∈ edits, IsKey e.key
  once : ∀ e ∈ edits, StandsOnce e.key ls
  known : (∃ e ∈ edits, e.isString = false) → ∀ line ∈ ls, ∀ before rest,
    ¬ Stands ['?'] line before rest

/-- No edited line goes on behind its value. -/
def NothingBehind (edits : List Edit) (ls : List Str) : Prop :=
  ∀ line ∈ ls, ∀ e n, placeOf edits line = some (e, n) → behindValue (line.drop n) = []

theorem length_bareLine_le (edits : List Edit) (line : Str) :
    (bareLine edits line).length ≤ (wantedLine edits line).length := by
  rw [bareLine, wantedLine]
  cases placeOf edits line with
  | none => exact Nat.le_refl _
  | some place => simp

/-- The lines are the wanted ones exactly where nothing is dropped. -/
theorem joined_bareLine_eq_iff :
    joined (ls.map (bareLine edits)) = wantedText edits ls ↔ NothingBehind edits ls := by
  constructor
  · intro h line hline e n hplace
    by_contra hne
    have hlt : (bareLine edits line).length < (wantedLine edits line).length := by
      rw [bareLine, wantedLine, hplace]
      simpa [List.length_pos_iff] using hne
    have hlen := length_joined_lt (fun line _ => length_bareLine_le edits line)
      ⟨line, hline, hlt⟩
    rw [h] at hlen
    exact Nat.lt_irrefl _ hlen
  · intro h
    rw [wantedText]
    apply congrArg joined
    apply List.map_congr_left
    intro line hline
    rw [bareLine, wantedLine]
    cases hplace : placeOf edits line with
    | none => rfl
    | some place =>
        obtain ⟨e, n⟩ := place
        have hnil := h line hline e n hplace
        simp [hnil]

theorem bareLine_nil (ls : List Str) : ls.map (bareLine []) = ls :=
  List.map_id ls

theorem renderConfig_of_strings (h : Editable original ls edits)
    (hstrings : ∀ e ∈ edits, e.isString = true) :
    renderConfig parse dump original (edits.map Edit.pair) expected =
      if parse (joined (ls.map (bareLine edits))) = some expected then
        some (joined (ls.map (bareLine edits)))
      else dump expected := by
  have hedits := editLines_of_strings [] (by simp) h.keys hstrings h.once
  rw [bareLine_nil, List.nil_append] at hedits
  rw [renderConfig, applyLineEdits, lines_of_isText h.text, hedits, Option.bind_some]
  split <;> rfl

theorem renderConfig_of_number (h : Editable original ls edits)
    (hnumber : ∃ e ∈ edits, e.isString = false) :
    renderConfig parse dump original (edits.map Edit.pair) expected = dump expected := by
  have hedits := editLines_of_number [] (by simp) h.keys hnumber h.once (h.known hnumber)
  rw [bareLine_nil] at hedits
  rw [renderConfig, applyLineEdits, lines_of_isText h.text, hedits]
  rfl

/-- What comes out always means the edited document, where a dump does. -/
theorem parse_of_renderConfig {pairs : List (Str × Str)} {text : Str}
    (hdump : ∀ v t, dump v = some t → parse t = some v)
    (h : renderConfig parse dump original pairs expected = some text) :
    parse text = some expected := by
  rw [renderConfig, Option.or_eq_some_iff] at h
  rcases h with h | ⟨-, h⟩
  · obtain ⟨ls, -, h⟩ := Option.bind_eq_some_iff.1 h
    obtain ⟨hparse, h⟩ := Option.ite_none_right_eq_some.1 h
    rwa [← Option.some.inj h]
  · exact hdump expected text h

/-- **When the file is kept**: where what stands behind a value means nothing to the parser, the
wanted text comes out if it means the edited document, every key is a string and nothing stands
behind an edited value, or, with a key that is no string, if the document is dumped just so. -/
theorem renderConfig_meets_iff (h : Editable original ls edits)
    (hcomment : parse (joined (ls.map (bareLine edits))) = parse (wantedText edits ls)) :
    Meets parse dump original ls edits expected ↔
      parse (wantedText edits ls) = some expected ∧
        (((∀ e ∈ edits, e.isString = true) ∧ NothingBehind edits ls) ∨
          ((∃ e ∈ edits, e.isString = false) ∧ dump expected = some (wantedText edits ls))) := by
  have hmeets : Meets parse dump original ls edits expected ↔
      parse (wantedText edits ls) = some expected ∧
        renderConfig parse dump original (edits.map Edit.pair) expected =
          some (wantedText edits ls) := by
    constructor
    · rintro ⟨text, hrender, hparse, rfl⟩
      exact ⟨hparse, hrender⟩
    · rintro ⟨hparse, hrender⟩
      exact ⟨_, hrender, hparse, rfl⟩
  rw [hmeets]
  apply and_congr_right
  intro hparse
  -- with strings only the lines are edited, otherwise the document is dumped
  by_cases hstrings : ∀ e ∈ edits, e.isString = true
  · have hnot : ¬ ∃ e ∈ edits, e.isString = false := by
      rintro ⟨e, he, hfalse⟩
      rw [hstrings e he] at hfalse
      cases hfalse
    rw [renderConfig_of_strings h hstrings, if_pos (hcomment.trans hparse), Option.some.injEq,
      joined_bareLine_eq_iff]
    constructor
    · intro hbehind
      exact Or.inl ⟨hstrings, hbehind⟩
    · rintro (⟨-, hbehind⟩ | ⟨hnumber, -⟩)
      · exact hbehind
      · exact absurd hnumber hnot
  · have hnumber : ∃ e ∈ edits, e.isString = false := by
      simpa using hstrings
    rw [renderConfig_of_number h hnumber]
    constructor
    · intro hdump
      exact Or.inr ⟨hnumber, hdump⟩
    · rintro (⟨hall, -⟩ | ⟨-, hdump⟩)
      · exact absurd hall hstrings
      · exact hdump

end Meets

/-! ## A file of one setting -/

/-- The settings of a file without sections, each a string on a line of its own. -/
def flatSetting (line : Str) : Option (Str × Str) :=
  match line.dropWhile (· != ':') with
  | [] => none
  | _ :: rest =>
      let value := rest.dropWhile isWhitespace
      some (line.takeWhile (· != ':'), (value.take (valueLength value)).filter (· != '"'))

/-- A format of one `key: value` a line, for a concrete case of the edits. -/
def flatParse (text : Str) : Option (List (Str × Str)) := (lines text).mapM flatSetting

/-- How a document of that format is written. -/
def flatDump (settings : List (Str × Str)) : Option Str :=
  some (settings.flatMap fun s => s.1 ++ ": ".toList ++ s.2 ++ ['\n'])

/-- The edit of an import that keeps this machine's key. -/
def keyEdit : Edit := ⟨"shared_key".toList, true, .text "mine".toList⟩

theorem standsOnce_singleton {key line : Str} (hkey : IsKey key)
    (h : (lineValueSpan line key).isSome = true) : StandsOnce key [line] := by
  refine ⟨0, ?_⟩
  intro j
  constructor
  · rintro ⟨line', before, rest, hline, -⟩
    have hlt := (List.getElem?_eq_some_iff.1 hline).1
    simpa using hlt
  · rintro rfl
    obtain ⟨before, rest, hstands⟩ := (isSome_lineValueSpan_iff hkey).1 h
    exact ⟨line, before, rest, rfl, hstands⟩

theorem isKey_keyEdit : IsKey keyEdit.key where
  start := ⟨'s', "hared_key".toList, rfl, by decide⟩
  plain := List.all_iff_forall_prop.1 (by decide +kernel)

theorem editable_keyEdit {line : Str} (hplain : '\n' ∉ line ∧ '\r' ∉ line)
    (h : (lineValueSpan line keyEdit.key).isSome = true) :
    Editable (line ++ ['\n']) [line] [keyEdit] where
  text := ⟨by simpa using hplain, Or.inl ⟨by simp, by simp [joined, List.intercalate]⟩⟩
  keys := by
    intro e he
    rw [List.mem_singleton.1 he]
    exact isKey_keyEdit
  once := by
    intro e he
    rw [List.mem_singleton.1 he]
    exact standsOnce_singleton isKey_keyEdit h
  known := by
    rintro ⟨e, he, hfalse⟩
    rw [List.mem_singleton.1 he] at hfalse
    cases hfalse

/-- A line with the setting and nothing behind it. -/
def plainLine : Str := "shared_key: theirs".toList

theorem renderConfig_meets_iff_plain :
    Meets flatParse flatDump (plainLine ++ ['\n']) [plainLine] [keyEdit]
      [("shared_key".toList, "mine".toList)] := by
  have hedit : Editable (plainLine ++ ['\n']) [plainLine] [keyEdit] :=
    editable_keyEdit (by decide +kernel) (by decide +kernel)
  refine (renderConfig_meets_iff hedit (by decide +kernel)).2 ⟨by decide +kernel, Or.inl ⟨?_, ?_⟩⟩
  · intro e he
    rw [List.mem_singleton.1 he]
    rfl
  · rw [← joined_bareLine_eq_iff]
    decide +kernel

/-- The line with a comment behind the value. -/
def commentLine : Str := "shared_key: theirs # paired".toList

/-- A comment behind the value is dropped, although the wanted text means the same. -/
theorem not_meets_comment :
    Editable (commentLine ++ ['\n']) [commentLine] [keyEdit] ∧
      flatParse (wantedText [keyEdit] [commentLine]) =
        some [("shared_key".toList, "mine".toList)] ∧
      ¬ Meets flatParse flatDump (commentLine ++ ['\n']) [commentLine] [keyEdit]
        [("shared_key".toList, "mine".toList)] := by
  refine ⟨editable_keyEdit (by decide +kernel) (by decide +kernel), by decide +kernel, ?_⟩
  rintro ⟨text, hrender, -, rfl⟩
  have hbare : renderConfig flatParse flatDump (commentLine ++ ['\n'])
      ([keyEdit].map Edit.pair) [("shared_key".toList, "mine".toList)] =
      some "shared_key: \"mine\"\n".toList := by decide +kernel
  rw [hbare] at hrender
  exact absurd hrender (by decide +kernel)

end DialF.Bundle
