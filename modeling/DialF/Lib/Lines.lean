import DialF.Lib.Text

/-!
# Lines out of a buffered stream

A buffered reader fills its buffer with chunks of any size and moves bytes from it to the line that
it reads, up to a line feed or up to a limit. `readUntil` is what it does with one buffer, and
`readUntil_spec` says what can come out: a line, the limit without a line, or all of the buffer and
no end yet. Since the outcome is a function of the line so far followed by the buffer, a line is the
same whatever the chunks were.
-/

set_option autoImplicit false

namespace DialF.Lib

/-- The byte that ends a line. -/
def lineFeed : UInt8 := 10

/-- Move bytes from the buffer to the line until it ends, at a line feed or at the limit: the line,
the rest of the buffer, and whether the line has ended. -/
def readUntil (limit : Nat) : Bytes → Bytes → Bytes × Bytes × Bool
  | line, [] => (line, [], decide (limit ≤ line.length))
  | line, b :: buffer =>
      if limit ≤ line.length then (line, b :: buffer, true)
      else if b = lineFeed then (line ++ [b], buffer, true)
      else readUntil limit (line ++ [b]) buffer

/-- A line that has not ended. -/
structure Unended (limit : Nat) (line : Bytes) : Prop where
  noFeed : lineFeed ∉ line
  short : line.length < limit

/-- The bytes of one line, its line feed at the end. -/
structure IsLine (limit : Nat) (line : Bytes) : Prop where
  ends : ∃ text, line = text ++ [lineFeed] ∧ lineFeed ∉ text
  short : line.length ≤ limit

/-- A line is on its way, alone: a part has been read, the reader holds a part in its buffer, and
the rest is in flight. -/
structure Incoming (limit : Nat) (text line buffer flight : Bytes) : Prop where
  whole : Unended limit text
  read : Unended limit line
  split : line ++ buffer ++ flight = text ++ [lineFeed]

/-- What can come out of a buffer. -/
inductive ReadUntil (limit : Nat) (line buffer : Bytes) : Bytes × Bytes × Bool → Prop where
  | line {text rest : Bytes} : line ++ buffer = text ++ lineFeed :: rest → Unended limit text →
      ReadUntil limit line buffer (text ++ [lineFeed], rest, true)
  | long {text rest : Bytes} : line ++ buffer = text ++ rest → lineFeed ∉ text →
      text.length = limit → ReadUntil limit line buffer (text, rest, true)
  | more : Unended limit (line ++ buffer) → ReadUntil limit line buffer (line ++ buffer, [], false)

section ReadUntil

variable {limit : Nat} {line buffer text rest : Bytes}

theorem unended_nil (h : 0 < limit) : Unended limit [] :=
  ⟨by simp, h⟩

theorem unended_append_singleton {b : UInt8} (hline : Unended limit line) (hb : b ≠ lineFeed)
    (hlen : (line ++ [b]).length < limit) : Unended limit (line ++ [b]) where
  noFeed := by
    simp only [List.mem_append, List.mem_singleton, not_or]
    exact ⟨hline.noFeed, hb.symm⟩
  short := hlen

/-- A line that is at the limit ends there, whatever is in the buffer. -/
theorem readUntil_of_length_eq (hlen : line.length = limit) :
    readUntil limit line buffer = (line, buffer, true) := by
  cases buffer with
  | nil => simp [readUntil, hlen]
  | cons b buffer => simp [readUntil, hlen]

/-- **What comes out of a buffer**, by induction on it. -/
theorem readUntil_spec (buffer : Bytes) (hline : Unended limit line) :
    ReadUntil limit line buffer (readUntil limit line buffer) := by
  induction buffer generalizing line with
  | nil =>
      have hshort : ¬ limit ≤ line.length := Nat.not_le_of_lt hline.short
      have hout : readUntil limit line [] = (line ++ [], [], false) := by
        simp [readUntil, hshort]
      rw [hout]
      exact .more (by simpa using hline)
  | cons b buffer ih =>
      have hassoc : line ++ b :: buffer = line ++ [b] ++ buffer := by simp
      have hshort : ¬ limit ≤ line.length := Nat.not_le_of_lt hline.short
      rw [readUntil, if_neg hshort]
      by_cases hb : b = lineFeed
      · subst hb
        rw [if_pos rfl]
        exact .line rfl hline
      · rw [if_neg hb]
        by_cases hlen : (line ++ [b]).length = limit
        · -- the limit is reached with this byte
          rw [readUntil_of_length_eq hlen]
          refine .long hassoc ?_ hlen
          simp only [List.mem_append, List.mem_singleton, not_or]
          exact ⟨hline.noFeed, Ne.symm hb⟩
        · have hlt : (line ++ [b]).length < limit := by
            have := hline.short
            simp only [List.length_append, List.length_singleton] at hlen ⊢
            omega
          have hspec := ih (unended_append_singleton hline hb hlt)
          generalize readUntil limit (line ++ [b]) buffer = out at hspec
          cases hspec with
          | line hsplit htext => exact .line (hassoc.trans hsplit) htext
          | long hsplit htext hlimit => exact .long (hassoc.trans hsplit) htext hlimit
          | more hmore =>
              rw [← hassoc] at hmore ⊢
              exact .more hmore

/-- The bytes before a line feed and a longer piece of the same stream: the piece has the feed. -/
theorem lineFeed_mem_of_append_eq {piece after : Bytes}
    (hsplit : piece ++ after = text ++ lineFeed :: rest) (hlen : text.length < piece.length) :
    lineFeed ∈ piece := by
  have hget : (piece ++ after)[text.length]? = some lineFeed := by
    rw [hsplit, List.getElem?_append_right (Nat.le_refl _), Nat.sub_self]
    rfl
  rw [List.getElem?_append_left hlen] at hget
  exact List.mem_of_getElem? hget

/-- A stream has one first line feed. -/
theorem append_lineFeed_inj {text' rest' : Bytes} (htext : lineFeed ∉ text)
    (htext' : lineFeed ∉ text') (h : text ++ lineFeed :: rest = text' ++ lineFeed :: rest') :
    text = text' ∧ rest = rest' := by
  have hlen : text.length = text'.length := by
    rcases Nat.lt_trichotomy text.length text'.length with hlt | heq | hgt
    · exact absurd (lineFeed_mem_of_append_eq h.symm hlt) htext'
    · exact heq
    · exact absurd (lineFeed_mem_of_append_eq h hgt) htext
  obtain ⟨heq, hrest⟩ := List.append_inj h hlen
  exact ⟨heq, (List.cons.inj hrest).2⟩

/-- Where a line feed comes within the limit, the line ends there. -/
theorem readUntil_eq_line (hline : Unended limit line) (htext : Unended limit text)
    (hsplit : line ++ buffer = text ++ lineFeed :: rest) :
    readUntil limit line buffer = (text ++ [lineFeed], rest, true) := by
  have hspec := readUntil_spec buffer hline
  generalize readUntil limit line buffer = out at hspec
  cases hspec with
  | line hsplit' htext' =>
      obtain ⟨rfl, rfl⟩ := append_lineFeed_inj htext'.noFeed htext.noFeed (hsplit'.symm.trans hsplit)
      rfl
  | long hsplit' htext' hlimit =>
      refine absurd (lineFeed_mem_of_append_eq (hsplit'.symm.trans hsplit) ?_) htext'
      exact hlimit ▸ htext.short
  | more hmore =>
      refine absurd ?_ hmore.noFeed
      rw [hsplit]
      simp

/-- Without a line feed, and below the limit, all of the buffer goes into the line. -/
theorem readUntil_eq_more (hline : Unended limit line) (hmore : Unended limit (line ++ buffer)) :
    readUntil limit line buffer = (line ++ buffer, [], false) := by
  have hspec := readUntil_spec buffer hline
  generalize readUntil limit line buffer = out at hspec
  cases hspec with
  | line hsplit htext =>
      refine absurd ?_ hmore.noFeed
      rw [hsplit]
      simp
  | long hsplit htext hlimit =>
      have hshort := hmore.short
      rw [hsplit, List.length_append] at hshort
      omega
  | more => rfl

/-- Nothing is lost: the line and the rest of the buffer are the bytes that were there. -/
theorem append_of_readUntil {out : Bytes} {done : Bool} (hline : Unended limit line)
    (h : readUntil limit line buffer = (out, rest, done)) : line ++ buffer = out ++ rest := by
  have hspec := readUntil_spec buffer hline
  rw [h] at hspec
  cases hspec with
  | line hsplit _ => simpa using hsplit
  | long hsplit _ _ => exact hsplit
  | more _ => simp

/-- A line that ends in a line feed was read up to its first one. -/
theorem isLine_of_readUntil {out : Bytes} (hline : Unended limit line)
    (h : readUntil limit line buffer = (out, rest, true)) (hlast : out.getLast? = some lineFeed) :
    IsLine limit out := by
  have hspec := readUntil_spec buffer hline
  rw [h] at hspec
  cases hspec with
  | @line text _ _ htext =>
      refine ⟨⟨text, rfl, htext.noFeed⟩, ?_⟩
      have hshort := htext.short
      simp only [List.length_append, List.length_singleton]
      omega
  | long _ htext _ => exact absurd (List.mem_of_getLast? hlast) htext

/-- A line that has not ended has taken all of the buffer. -/
theorem unended_of_readUntil {out : Bytes} (hline : Unended limit line)
    (h : readUntil limit line buffer = (out, rest, false)) : rest = [] ∧ Unended limit out := by
  have hspec := readUntil_spec buffer hline
  rw [h] at hspec
  cases hspec with
  | more hmore => exact ⟨rfl, hmore⟩

end ReadUntil

/-! ## A line that comes in pieces -/

namespace Incoming

variable {limit : Nat} {text line buffer flight : Bytes}

theorem start (htext : Unended limit text) : Incoming limit text [] [] (text ++ [lineFeed]) where
  whole := htext
  read := unended_nil (Nat.zero_lt_of_lt htext.short)
  split := rfl

/-- A piece arrives. -/
theorem recv (h : Incoming limit text line [] flight) (n : Nat) :
    Incoming limit text line (flight.take n) (flight.drop n) where
  whole := h.whole
  read := h.read
  split := by
    rw [List.append_assoc, List.take_append_drop]
    simpa using h.split

/-- Where the buffer is empty there is more to come. -/
theorem flight_ne_nil (h : Incoming limit text line [] flight) : flight ≠ [] := by
  rintro rfl
  refine h.read.noFeed ?_
  have hsplit := h.split
  simp only [List.append_nil] at hsplit
  rw [hsplit]
  simp

/-- The line ends with the last piece, and leaves nothing in the buffer. -/
theorem readUntil_of_nil (h : Incoming limit text line buffer []) :
    readUntil limit line buffer = (text ++ [lineFeed], [], true) :=
  readUntil_eq_line h.read h.whole ((List.append_nil _).symm.trans h.split)

/-- With any other piece it goes on. -/
theorem readUntil_of_ne_nil (h : Incoming limit text line buffer flight) (hflight : flight ≠ []) :
    readUntil limit line buffer = (line ++ buffer, [], false) ∧
      Incoming limit text (line ++ buffer) [] flight := by
  obtain ⟨init, last, rfl⟩ := List.eq_nil_or_concat flight |>.resolve_left hflight
  have hsplit := h.split
  rw [List.concat_eq_append, ← List.append_assoc] at hsplit
  have htext : line ++ buffer ++ init = text := (List.append_inj' hsplit rfl).1
  have hmore : Unended limit (line ++ buffer) := by
    constructor
    · intro hmem
      exact h.whole.noFeed (htext ▸ List.mem_append_left _ hmem)
    · have hshort := h.whole.short
      rw [← htext, List.length_append] at hshort
      omega
  refine ⟨readUntil_eq_more h.read hmore, h.whole, hmore, ?_⟩
  simpa using h.split

end Incoming

end DialF.Lib
