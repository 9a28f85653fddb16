import Mathlib.Data.List.DropRight
import Mathlib.Data.List.TakeWhile
import Mathlib.Data.Nat.Notation

/-! # Reading a text in pieces

A reader whose buffer has room for a number of characters hands out a text in pieces: each
ends with the first terminator in it or where the room does. A consumer that looks at what
stands before a comment mark and drops the blanks around it finds the same texts in the
pieces as in the lines exactly where every line has all of its text in one piece. -/

namespace AdaptiveLowpan.TextLines

variable {α : Type} [DecidableEq α]

/-- One read: the characters up to and with the first terminator, but no more than there
is room for, and what is left. -/
def readLine (terminator : α) : ℕ → List α → List α × List α
  | 0, text => ([], text)
  | _ + 1, [] => ([], [])
  | room + 1, c :: text =>
    if c = terminator then ([c], text)
    else (c :: (readLine terminator room text).1, (readLine terminator room text).2)

variable {terminator : α} {room : ℕ}

theorem readLine_append (terminator : α) (room : ℕ) (text : List α) :
    (readLine terminator room text).1 ++ (readLine terminator room text).2 = text := by
  induction room generalizing text with
  | zero => rfl
  | succ room ih =>
    cases text with
    | nil => rfl
    | cons c text =>
      rw [readLine]
      split
      · rfl
      · exact congrArg (c :: ·) (ih text)

theorem length_rest_lt {text : List α} (h : (readLine terminator room text).1 ≠ []) :
    (readLine terminator room text).2.length < text.length := by
  have hlength := congrArg List.length (readLine_append terminator room text)
  have hpos := List.length_pos_of_ne_nil h
  rw [List.length_append] at hlength
  omega

def readAll (terminator : α) (room : ℕ) (text : List α) : List (List α) :=
  if _h : (readLine terminator room text).1 = [] then []
  else (readLine terminator room text).1 ::
    readAll terminator room (readLine terminator room text).2
termination_by text.length
decreasing_by exact length_rest_lt _h

/-- A line that is longer than the room is cut there. -/
theorem readLine_line (rest : List α) {line : List α} (h : terminator ∉ line) :
    readLine terminator room (line ++ terminator :: rest) =
      if line.length < room then (line ++ [terminator], rest)
      else (line.take room, line.drop room ++ terminator :: rest) := by
  induction line generalizing room with
  | nil =>
    cases room with
    | zero => rfl
    | succ room => exact if_pos rfl
  | cons c line ih =>
    obtain ⟨hc, hline⟩ := List.ne_and_not_mem_of_not_mem_cons h
    cases room with
    | zero => rfl
    | succ room =>
      rw [List.cons_append, readLine, if_neg hc.symm, ih hline]
      by_cases hlt : line.length < room
      · rw [if_pos hlt]
        exact (if_pos (Nat.succ_lt_succ hlt)).symm
      · rw [if_neg hlt]
        exact (if_neg (mt Nat.lt_of_succ_lt_succ hlt)).symm

theorem readLine_last {line : List α} (h : terminator ∉ line) :
    readLine terminator room line = (line.take room, line.drop room) := by
  induction line generalizing room with
  | nil => cases room <;> rfl
  | cons c line ih =>
    obtain ⟨hc, hline⟩ := List.ne_and_not_mem_of_not_mem_cons h
    cases room with
    | zero => rfl
    | succ room =>
      rw [readLine, if_neg hc.symm, ih hline]
      rfl

theorem readAll_cons {text piece rest : List α}
    (h : readLine terminator room text = (piece, rest)) (hne : piece ≠ []) :
    readAll terminator room text = piece :: readAll terminator room rest := by
  rw [readAll, h, dif_neg hne]

theorem readAll_nil : readAll terminator room [] = [] := by
  have hempty : (readLine terminator room []).1 = [] := by cases room <;> rfl
  rw [readAll, dif_pos hempty]

theorem readAll_short {line : List α} (rest : List α) (h : terminator ∉ line)
    (hlt : line.length < room) :
    readAll terminator room (line ++ terminator :: rest) =
      (line ++ [terminator]) :: readAll terminator room rest := by
  refine readAll_cons ?_ (by simp)
  rw [readLine_line rest h, if_pos hlt]

omit [DecidableEq α] in
theorem take_ne_nil {line : List α} (hroom : 0 < room) (hle : room ≤ line.length) :
    line.take room ≠ [] := by
  rw [← List.length_pos_iff, List.length_take]
  omega

theorem readAll_long {line : List α} (rest : List α) (h : terminator ∉ line) (hroom : 0 < room)
    (hle : room ≤ line.length) :
    readAll terminator room (line ++ terminator :: rest) =
      line.take room :: readAll terminator room (line.drop room ++ terminator :: rest) := by
  refine readAll_cons ?_ (take_ne_nil hroom hle)
  rw [readLine_line rest h, if_neg (Nat.not_lt.mpr hle)]

theorem readAll_line (rest : List α) {line : List α} (hroom : 0 < room) (h : terminator ∉ line) :
    readAll terminator room (line ++ terminator :: rest) =
      readAll terminator room (line ++ [terminator]) ++ readAll terminator room rest := by
  induction hn : line.length using Nat.strong_induction_on generalizing line with
  | _ n ih =>
    by_cases hlt : line.length < room
    · rw [readAll_short rest h hlt, readAll_short [] h hlt, readAll_nil]
      rfl
    · have hle := Nat.not_lt.mp hlt
      have hdrop : terminator ∉ line.drop room := fun hmem => h (List.mem_of_mem_drop hmem)
      have hshorter : (line.drop room).length < n := by
        rw [List.length_drop]
        omega
      rw [readAll_long rest h hroom hle, readAll_long [] h hroom hle, ih _ hshorter hdrop rfl]
      rfl

theorem readLine_fst_ne_nil {text : List α} (hroom : 0 < room) (h : text ≠ []) :
    (readLine terminator room text).1 ≠ [] := by
  obtain ⟨c, text, rfl⟩ := List.exists_cons_of_ne_nil h
  obtain ⟨room, rfl⟩ := Nat.exists_eq_succ_of_ne_zero hroom.ne'
  rw [readLine]
  split <;> simp

theorem flatten_readAll (terminator : α) (hroom : 0 < room) (text : List α) :
    (readAll terminator room text).flatten = text := by
  fun_induction readAll terminator room text with
  | case1 text hempty =>
    by_contra hne
    exact readLine_fst_ne_nil hroom (Ne.symm hne) hempty
  | case2 text hne ih =>
    rw [List.flatten_cons, ih, readLine_append]

theorem readAll_last {line : List α} (h : terminator ∉ line) (hroom : 0 < room) (hne : line ≠ []) :
    readAll terminator room line =
      line.take room :: readAll terminator room (line.drop room) := by
  refine readAll_cons (readLine_last h) ?_
  rw [Ne, List.take_eq_nil_iff]
  rintro (hzero | hnil)
  · exact hroom.ne' hzero
  · exact hne hnil

/-- Induction over the lines of a text. -/
@[elab_as_elim]
theorem line_induction {motive : List α → Prop} (terminator : α)
    (last : ∀ line, terminator ∉ line → motive line)
    (more : ∀ line rest, terminator ∉ line → motive rest → motive (line ++ terminator :: rest))
    (text : List α) : motive text := by
  induction hn : text.length using Nat.strong_induction_on generalizing text with
  | _ n ih =>
    by_cases hmem : terminator ∈ text
    · obtain ⟨line, rest, rfl, hline⟩ := List.eq_append_cons_of_mem hmem
      refine more line rest hline (ih rest.length ?_ rest rfl)
      rw [List.length_append, List.length_cons] at hn
      omega
    · exact last text hmem

theorem notMem_of_mem_splitOn {text line : List α} (h : line ∈ text.splitOn terminator) :
    terminator ∉ line := by
  induction text using line_induction terminator with
  | last text htext =>
    rw [List.splitOn_eq_singleton htext, List.mem_singleton] at h
    rw [h]
    exact htext
  | more first rest hfirst ih =>
    rw [List.splitOn_append_cons_self_of_not_mem hfirst, List.mem_cons] at h
    rcases h with rfl | hrest
    · exact hfirst
    · exact ih hrest

/-! ## What a consumer sees -/

def trim (blank : α → Bool) (text : List α) : List α := (text.dropWhile blank).rdropWhile blank

def content (blank : α → Bool) (mark : α) (text : List α) : List α :=
  trim blank (text.takeWhile (· ≠ mark))

def contents (blank : α → Bool) (mark : α) (texts : List (List α)) : List (List α) :=
  (texts.map (content blank mark)).filter (· ≠ [])

section Content

variable {blank : α → Bool} {mark : α}

section Trim

omit [DecidableEq α]

theorem trim_eq_nil {text : List α} : trim blank text = [] ↔ ∀ c ∈ text, blank c := by
  rw [trim, List.rdropWhile_eq_nil_iff, ← List.dropWhile_eq_nil_iff, List.dropWhile_idempotent,
    List.dropWhile_eq_nil_iff]

theorem trim_append_left {text blanks : List α} (h : ∀ c ∈ blanks, blank c) :
    trim blank (blanks ++ text) = trim blank text := by
  rw [trim, trim, List.dropWhile_append_of_pos h]

theorem rdropWhile_append_right {text blanks : List α} (h : ∀ c ∈ blanks, blank c) :
    (text ++ blanks).rdropWhile blank = text.rdropWhile blank := by
  have hreverse : ∀ c ∈ blanks.reverse, blank c := fun c hc => h c (List.mem_reverse.mp hc)
  rw [List.rdropWhile, List.rdropWhile, List.reverse_append, List.dropWhile_append_of_pos hreverse]

theorem trim_append_right {text blanks : List α} (h : ∀ c ∈ blanks, blank c) :
    trim blank (text ++ blanks) = trim blank text := by
  by_cases hnil : text.dropWhile blank = []
  · have htext := List.dropWhile_eq_nil_iff.mp hnil
    rw [trim_append_left htext, trim_eq_nil.mpr h, trim_eq_nil.mpr htext]
  · rw [trim, trim, List.dropWhile_append, if_neg (by simpa using hnil), rdropWhile_append_right h]

end Trim

/-- A comment that starts in the first text goes on through the second. -/
theorem content_append_of_mem {text rest : List α} (h : mark ∈ text) :
    content blank mark (text ++ rest) = content blank mark text := by
  rw [content, content, List.takeWhile_append, if_neg]
  intro hlength
  have hall := List.takeWhile_eq_self_iff.mp
    ((List.takeWhile_prefix (p := (· ≠ mark))).eq_of_length hlength) mark h
  simp at hall

theorem content_append_of_notMem {text rest : List α} (h : mark ∉ text) :
    content blank mark (text ++ rest) = trim blank (text ++ rest.takeWhile (· ≠ mark)) := by
  rw [content, List.takeWhile_append_of_pos]
  intro c hc
  have hne : c ≠ mark := fun heq => h (heq ▸ hc)
  simp [hne]

theorem content_eq_of_notMem {text : List α} (h : mark ∉ text) :
    content blank mark text = trim blank text := by
  have happend : content blank mark (text ++ []) = _ := content_append_of_notMem h
  simpa using happend

theorem content_append_left (text : List α) {rest : List α} (hrest : content blank mark rest = []) :
    content blank mark (text ++ rest) = content blank mark text := by
  by_cases hmark : mark ∈ text
  · exact content_append_of_mem hmark
  · rw [content_append_of_notMem hmark, trim_append_right (trim_eq_nil.mp hrest),
      content_eq_of_notMem hmark]

/-- What comes before a text can be left out where it has no content and starts no comment. -/
theorem content_append_right {text : List α} (rest : List α) (hmark : mark ∉ text)
    (htext : content blank mark text = []) :
    content blank mark (text ++ rest) = content blank mark rest := by
  rw [content_eq_of_notMem hmark] at htext
  rw [content_append_of_notMem hmark, trim_append_left (trim_eq_nil.mp htext), content]

/-! ## Pieces and wholes -/

@[simp] theorem contents_nil : contents blank mark [] = [] := rfl

theorem contents_append (texts texts' : List (List α)) :
    contents blank mark (texts ++ texts') = contents blank mark texts ++ contents blank mark texts' := by
  rw [contents, contents, contents, List.map_append, List.filter_append]

theorem contents_cons_of_nil {text : List α} (texts : List (List α))
    (h : content blank mark text = []) :
    contents blank mark (text :: texts) = contents blank mark texts := by
  rw [contents, contents, List.map_cons, List.filter_cons_of_neg (by simp [h])]

theorem contents_cons_of_ne {text : List α} (texts : List (List α))
    (h : content blank mark text ≠ []) :
    contents blank mark (text :: texts) = content blank mark text :: contents blank mark texts := by
  rw [contents, contents, List.map_cons, List.filter_cons_of_pos (by simp [h])]

theorem content_flatten {pieces : List (List α)} (h : contents blank mark pieces = []) :
    content blank mark pieces.flatten = [] := by
  induction pieces with
  | nil => rfl
  | cons piece pieces ih =>
    by_cases hpiece : content blank mark piece = []
    · rw [contents_cons_of_nil pieces hpiece] at h
      rw [List.flatten_cons, content_append_left piece (ih h), hpiece]
    · rw [contents_cons_of_ne pieces hpiece] at h
      cases h

theorem contents_eq_of_length {pieces : List (List α)}
    (h : (contents blank mark pieces).length = (contents blank mark [pieces.flatten]).length) :
    contents blank mark pieces = contents blank mark [pieces.flatten] := by
  induction pieces with
  | nil => rfl
  | cons piece pieces ih =>
    rw [List.flatten_cons] at h ⊢
    by_cases hpiece : content blank mark piece = []
    · rw [contents_cons_of_nil pieces hpiece] at h ⊢
      by_cases hmark : mark ∈ piece
      · have hwhole : content blank mark (piece ++ pieces.flatten) = [] := by
          rw [content_append_of_mem hmark, hpiece]
        rw [contents_cons_of_nil [] hwhole] at h ⊢
        exact List.length_eq_zero_iff.mp h
      · have hwhole := content_append_right pieces.flatten hmark hpiece
        have hsame : contents blank mark [piece ++ pieces.flatten] =
            contents blank mark [pieces.flatten] := by
          rw [contents, contents, List.map_singleton, List.map_singleton, hwhole]
        rw [hsame] at h ⊢
        exact ih h
    · rw [contents_cons_of_ne pieces hpiece] at h ⊢
      have hone : (contents blank mark [piece ++ pieces.flatten]).length ≤ 1 :=
        (List.length_filter_le _ _).trans (by simp)
      have hrest : contents blank mark pieces = [] := by
        rw [← List.length_eq_zero_iff]
        rw [List.length_cons] at h
        omega
      have hwhole := content_append_left piece (content_flatten hrest)
      rw [contents_cons_of_ne [] (hwhole ▸ hpiece), hwhole, hrest, contents_nil]

theorem content_terminator (mark : α) (h : blank terminator) : content blank mark [terminator] = [] := by
  rw [content, trim_eq_nil]
  intro c hc
  have heq := List.mem_singleton.mp ((List.takeWhile_prefix _).subset hc)
  rw [heq]
  exact h

/-- The terminator of a line adds nothing to its contents, also where it is a piece of
its own. -/
theorem contents_readAll_terminator {line : List α} (hblank : blank terminator) (hroom : 0 < room)
    (h : terminator ∉ line) :
    contents blank mark (readAll terminator room (line ++ [terminator])) =
      contents blank mark (readAll terminator room line) := by
  have hterminator := content_terminator mark hblank
  induction hn : line.length using Nat.strong_induction_on generalizing line with
  | _ n ih =>
    by_cases hnil : line = []
    · rw [hnil, readAll_nil, readAll_short [] List.not_mem_nil hroom, readAll_nil]
      exact contents_cons_of_nil [] hterminator
    rw [readAll_last h hroom hnil]
    by_cases hlt : line.length < room
    · have hsame : content blank mark (line ++ [terminator]) = content blank mark line :=
        content_append_left line hterminator
      rw [readAll_short [] h hlt, List.take_of_length_le hlt.le, List.drop_of_length_le hlt.le,
        contents, contents, readAll_nil, List.map_singleton, List.map_singleton, hsame]
    · have hle := Nat.not_lt.mp hlt
      have hdrop : terminator ∉ line.drop room := fun hmem => h (List.mem_of_mem_drop hmem)
      have hshorter : (line.drop room).length < n := by
        rw [List.length_drop]
        omega
      have hcons (texts : List (List α)) : contents blank mark (line.take room :: texts) =
          contents blank mark [line.take room] ++ contents blank mark texts :=
        contents_append [line.take room] texts
      rw [readAll_long [] h hroom hle, hcons, hcons (readAll _ _ _), ih _ hshorter hdrop rfl]

theorem contents_readAll (hblank : blank terminator) (hroom : 0 < room) (text : List α) :
    contents blank mark (readAll terminator room text) =
      (text.splitOn terminator).flatMap fun line =>
        contents blank mark (readAll terminator room line) := by
  induction text using line_induction terminator with
  | last line hline =>
    rw [List.splitOn_eq_singleton hline, List.flatMap_singleton]
  | more line rest hline ih =>
    rw [readAll_line rest hroom hline, contents_append,
      contents_readAll_terminator hblank hroom hline, ih,
      List.splitOn_append_cons_self_of_not_mem hline, List.flatMap_cons]

/-- Of the pieces of a line exactly one has a content where the line has one, and none
where it has none. -/
def Whole (blank : α → Bool) (mark terminator : α) (room : ℕ) (line : List α) : Prop :=
  (contents blank mark (readAll terminator room line)).length = (contents blank mark [line]).length

instance {line : List α} : Decidable (Whole blank mark terminator room line) := Nat.decEq _ _

theorem Whole.contents_eq {line : List α} (hroom : 0 < room)
    (h : Whole blank mark terminator room line) :
    contents blank mark (readAll terminator room line) = contents blank mark [line] := by
  have hflatten := flatten_readAll terminator hroom line
  have heq : contents blank mark (readAll terminator room line) =
      contents blank mark [(readAll terminator room line).flatten] := by
    apply contents_eq_of_length
    rw [hflatten]
    exact h
  rw [heq, hflatten]

theorem whole_of_length_le {line : List α} (h : terminator ∉ line) (hroom : 0 < room)
    (hle : line.length ≤ room) : Whole blank mark terminator room line := by
  by_cases hnil : line = []
  · rw [hnil, Whole, readAll_nil]
    rfl
  · rw [Whole, readAll_last h hroom hnil, List.take_of_length_le hle, List.drop_of_length_le hle,
      readAll_nil]

end Content

end AdaptiveLowpan.TextLines
