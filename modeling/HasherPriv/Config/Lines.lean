/- GID: HasherPriv/Config/Lines
   layer: configuration
   source: file_config.c
   digest: The buffers that fgets makes of a file, and which of its lines come out as one unit. -/

import HasherPriv.Config.FileConfig

set_option autoImplicit false
set_option relaxedAutoImplicit false

namespace HasherPriv.Config.Lines

open Foundations.ByteString
open Foundations.Numerals
open Foundations.Program
open FileConfig
open Chroot.Syscall

/-- `BUFSIZ`. -/
def bufsiz : ℕ := 8192

def newline : UInt8 := 10

/-! Reading a file. -/

/-- A line with its newline, if it has one. -/
def upToNewline : Bytes → Bytes
  | [] => []
  | b :: s => if b = newline then [b] else b :: upToNewline s

/-- `fgets (buf, BUFSIZ, fp)` where `s` is still to be read. -/
def fgets (s : Bytes) : Bytes := (upToNewline s).take (bufsiz - 1)

theorem upToNewline_ne_nil {s : Bytes} (h : s ≠ []) : upToNewline s ≠ [] := by
  cases s with
  | nil => exact absurd rfl h
  | cons b s =>
      rw [upToNewline]
      split_ifs <;> simp

theorem fgets_ne_nil {s : Bytes} (h : s ≠ []) : fgets s ≠ [] := by
  rw [fgets, ne_eq, List.take_eq_nil_iff, not_or]
  exact ⟨by decide, upToNewline_ne_nil h⟩

theorem upToNewline_isPrefix (s : Bytes) : upToNewline s <+: s := by
  induction s with
  | nil => exact List.prefix_rfl
  | cons b s ih =>
      rw [upToNewline]
      split_ifs
      · exact ⟨s, rfl⟩
      · exact (List.prefix_cons_inj b).mpr ih

theorem fgets_isPrefix (s : Bytes) : fgets s <+: upToNewline s := List.take_prefix _ _

/-- What is still to be read after `fgets`. -/
def afterFgets (s : Bytes) : Bytes := s.drop (fgets s).length

theorem fgets_append_after (s : Bytes) : fgets s ++ afterFgets s = s :=
  (List.prefix_iff_eq_append.mp ((fgets_isPrefix s).trans (upToNewline_isPrefix s)))

theorem afterFgets_lt {s : Bytes} (h : s ≠ []) : (afterFgets s).length < s.length := by
  have hpos := List.length_pos_iff.mpr (fgets_ne_nil h)
  have hs := List.length_pos_iff.mpr h
  rw [afterFgets, List.length_drop]
  omega

/-- A buffer, with what is before it in its line and what follows it in the file. -/
structure Piece where
  /-- The number of lines before. -/
  line : ℕ
  before : Bytes
  buf : Bytes
  rest : Bytes

/-- The buffers of what is still to be read. -/
def piecesFrom (line : ℕ) (before s : Bytes) : List Piece :=
  if h : s = [] then []
  else
    have := afterFgets_lt h
    { line := line, before := before, buf := fgets s, rest := afterFgets s } ::
      if newline ∈ fgets s then piecesFrom (line + 1) [] (afterFgets s)
      else piecesFrom line (before ++ fgets s) (afterFgets s)
termination_by s.length

def pieces (content : Bytes) : List Piece := piecesFrom 0 [] content

/-- The buffer as a string. -/
def Piece.str (p : Piece) : Bytes := p.buf.takeWhile (· ≠ 0)

/-- The whole line that the buffer is from. -/
def Piece.text (p : Piece) : Bytes := p.before ++ upToNewline (p.buf ++ p.rest)

/-- A call of `func`. -/
structure Call where
  piece : Piece
  name : Bytes
  value : Bytes

/-- The calls of `func` in the loop of `fread_config_name_value`. -/
def callsMade {σ : Type} (func : Bytes → Bytes → σ → Except String σ) : List Piece → σ → List Call
  | [], _ => []
  | p :: ps, s =>
      match parseLine p.str with
      | .blank => callsMade func ps s
      | .syntaxError => []
      | .option name value =>
          { piece := p, name := name, value := value } ::
            match func name value s with
            | .error _ => []
            | .ok s => callsMade func ps s

section Calls

variable {σ : Type} {func : Bytes → Bytes → σ → Except String σ}

/-- The calls, one after the other. -/
def runCalls (func : Bytes → Bytes → σ → Except String σ) (calls : List Call) (s : σ) :
    Except String σ :=
  calls.foldlM (fun s c => func c.name c.value s) s

/-- They are those that the loop makes: it ends as they do, or on a syntax error behind them. -/
theorem eachOption_callsMade (fname : Bytes) (line : ℕ) (ps : List Piece) (s : σ) :
    eachOption func fname line (ps.map Piece.str) s = runCalls func (callsMade func ps s) s ∨
      ∃ (t : σ) (number : ℕ), runCalls func (callsMade func ps s) s = .ok t ∧
        let file := text fname
        eachOption func fname line (ps.map Piece.str) s =
          .error s!"{file}: syntax error at line {number}" := by
  induction ps generalizing line s with
  | nil => exact Or.inl rfl
  | cons p ps ih =>
      rw [List.map_cons, eachOption, callsMade]
      cases parseLine p.str with
      | blank => exact ih (line + 1) s
      | syntaxError => exact Or.inr ⟨s, line, rfl, rfl⟩
      | option name value =>
          dsimp only
          rw [runCalls, List.foldlM_cons]
          cases hfunc : func name value s with
          | error why => exact Or.inl rfl
          | ok s' => exact ih (line + 1) s'

/-- Before each call those before it have been accepted. -/
theorem callsMade_accepted {ps : List Piece} {s : σ} {earlier later : List Call} {c : Call}
    (h : callsMade func ps s = earlier ++ c :: later) :
    ∃ t, runCalls func earlier s = .ok t := by
  induction ps generalizing s earlier with
  | nil => simp [callsMade] at h
  | cons p ps ih =>
      rw [callsMade] at h
      cases hline : parseLine p.str with
      | blank =>
          rw [hline] at h
          exact ih h
      | syntaxError =>
          rw [hline] at h
          simp at h
      | option name value =>
          rw [hline] at h
          cases earlier with
          | nil => exact ⟨s, rfl⟩
          | cons first earlier =>
              obtain ⟨rfl, hrest⟩ := List.cons.inj h
              rw [runCalls, List.foldlM_cons]
              cases hfunc : func name value s with
              | error why =>
                  rw [hfunc] at hrest
                  simp at hrest
              | ok s' =>
                  rw [hfunc] at hrest
                  exact ih hrest

end Calls

/-! The property. -/

def Blank (s : Bytes) : Prop := ∀ b ∈ s, isSpace b = true

/-- The name and the value are the first text of the line. -/
def AtFront (text name value : Bytes) : Prop :=
  name ≠ [] ∧ ∃ b b' rest, Blank b ∧ Blank b' ∧
    text.dropWhile isSpace = name ++ b ++ 61 :: (b' ++ value ++ rest)

/-- The first character of a line that is not blank is `'#'`. -/
def IsComment (text : Bytes) : Prop := (text.dropWhile isSpace).head? = some 35

/-- Each line is one unit. -/
structure OneDirective (calls : List Call) : Prop where
  once : (calls.map fun c => c.piece.line).Nodup
  front : ∀ c ∈ calls, AtFront c.piece.text c.name c.value
  comment : ∀ c ∈ calls, ¬ IsComment c.piece.text

/-- Up to the first syntax error there is only blank text before a buffer that has an option. -/
def OptionsFirst (content : Bytes) : Prop :=
  ∀ xs q ys, pieces content = xs ++ q :: ys → (∀ p ∈ xs, parseLine p.str ≠ .syntaxError) →
    ∀ name value, parseLine q.str = .option name value → Blank q.before

/-! One line. -/

theorem dropWhile_of_blank {s : Bytes} (h : Blank s) (t : Bytes) :
    (s ++ t).dropWhile isSpace = t.dropWhile isSpace :=
  List.dropWhile_append_of_pos h

theorem blank_iff {s : Bytes} : Blank s ↔ s.dropWhile isSpace = [] := by
  rw [List.dropWhile_eq_nil_iff]
  exact Iff.rfl

theorem parseLine_of_blank {s : Bytes} (h : Blank s) : parseLine s = .blank := by
  rw [parseLine, blank_iff.mp h]

theorem parseLine_comment {s rest : Bytes} (h : s.dropWhile isSpace = 35 :: rest) :
    parseLine s = .blank := by
  rw [parseLine, h]
  rfl

theorem blank_of_rdropWhile (s : Bytes) : Blank (s.rtakeWhile isSpace) :=
  fun _ hb => List.mem_rtakeWhile_imp hb

/-- Where the name and the value of an option are. -/
theorem parseLine_option {s name value : Bytes} (h : parseLine s = .option name value) :
    AtFront s name value ∧ ¬ IsComment s := by
  rw [parseLine] at h
  cases hs : s.dropWhile isSpace with
  | nil =>
      rw [hs] at h
      cases h
  | cons c rest =>
      rw [hs] at h
      dsimp only at h
      split_ifs at h with hhash hmem hleft
      · obtain ⟨hname, hvalue⟩ := Line.option.inj h
        have hfound : (c :: rest).dropWhile (· ≠ 61) ≠ [] := by
          rw [ne_eq, List.dropWhile_eq_nil_iff, not_forall]
          exact ⟨61, fun hall => by simpa using hall hmem⟩
        obtain ⟨d, right, hright⟩ := List.exists_cons_of_ne_nil hfound
        obtain rfl : d = 61 := by
          have hhead := List.head_dropWhile_not (· ≠ (61 : UInt8)) hfound
          simp only [hright, List.head_cons, decide_eq_false_iff_not, not_not] at hhead
          exact hhead
        rw [hright, List.tail_cons] at hvalue
        have hfront : name ++ ((c :: rest).takeWhile (· ≠ 61)).rtakeWhile isSpace =
            (c :: rest).takeWhile (· ≠ 61) := by rw [← hname, List.rdropWhile_append_rtakeWhile]
        have hback : right.takeWhile isSpace ++ value ++
            (right.dropWhile isSpace).rtakeWhile isSpace = right := by
          rw [← hvalue, List.append_assoc, List.rdropWhile_append_rtakeWhile,
            List.takeWhile_append_dropWhile]
        have hline : s.dropWhile isSpace =
            name ++ ((c :: rest).takeWhile (· ≠ 61)).rtakeWhile isSpace ++
              61 :: (right.takeWhile isSpace ++ value ++
                (right.dropWhile isSpace).rtakeWhile isSpace) := by
          rw [hfront, hback, hs, ← hright, List.takeWhile_append_dropWhile]
        refine ⟨⟨hname ▸ hleft, _, _, _, blank_of_rdropWhile _, ?_, hline⟩, ?_⟩
        · exact fun _ => List.mem_takeWhile_imp
        · simp [IsComment, hs, hhash]

/-- A string that starts a text starts it with its name and value. -/
theorem AtFront.append {s name value : Bytes} (h : AtFront s name value) {before : Bytes}
    (hbefore : Blank before) (more : Bytes) : AtFront (before ++ (s ++ more)) name value := by
  obtain ⟨hname, b, b', rest, hb, hb', heq⟩ := h
  refine ⟨hname, b, b', rest ++ more, hb, hb', ?_⟩
  rw [dropWhile_of_blank hbefore, List.dropWhile_append, heq, if_neg (by simp)]
  simp

theorem not_isComment_append {s name value : Bytes} (h : AtFront s name value)
    (hs : ¬ IsComment s) {before : Bytes} (hbefore : Blank before) (more : Bytes) :
    ¬ IsComment (before ++ (s ++ more)) := by
  obtain ⟨hname, b, b', rest, -, -, heq⟩ := h
  obtain ⟨c, name', rfl⟩ := List.exists_cons_of_ne_nil hname
  rw [IsComment, dropWhile_of_blank hbefore, List.dropWhile_append, heq, if_neg (by simp)]
  rw [IsComment, heq] at hs
  simpa using hs

theorem parseLine_ne_blank {s rest : Bytes} {c : UInt8} (h : s.dropWhile isSpace = c :: rest)
    (hc : c ≠ 35) : parseLine s ≠ .blank := by
  rw [parseLine, h]
  dsimp only
  split_ifs with hhash
  · exact absurd hhash hc
  all_goals simp

/-! The buffers of a file. -/

theorem upToNewline_append {a : Bytes} (h : newline ∉ a) (b : Bytes) :
    upToNewline (a ++ b) = a ++ upToNewline b := by
  induction a with
  | nil => rfl
  | cons c a ih =>
      rw [List.mem_cons, not_or] at h
      rw [List.cons_append, upToNewline, if_neg (Ne.symm h.1), ih h.2, List.cons_append]

theorem piecesFrom_of_ne {line : ℕ} {before s : Bytes} (h : s ≠ []) :
    piecesFrom line before s =
      { line := line, before := before, buf := fgets s, rest := afterFgets s } ::
        if newline ∈ fgets s then piecesFrom (line + 1) [] (afterFgets s)
        else piecesFrom line (before ++ fgets s) (afterFgets s) := by
  rw [piecesFrom, dif_neg h]

theorem buf_prefix_text {line : ℕ} {before s : Bytes} {p : Piece}
    (h : p ∈ piecesFrom line before s) : p.buf <+: upToNewline (p.buf ++ p.rest) := by
  induction line, before, s using piecesFrom.induct with
  | case1 line before => simp [piecesFrom] at h
  | case2 line before s hs hlt ih₁ ih₂ =>
      rw [piecesFrom_of_ne hs] at h
      rcases List.mem_cons.mp h with rfl | h
      · dsimp only
        rw [fgets_append_after]
        exact fgets_isPrefix s
      · split_ifs at h
        · exact ih₁ h
        · exact ih₂ h

/-- The lines come in order. -/
theorem le_line {line : ℕ} {before s : Bytes} {p : Piece} (h : p ∈ piecesFrom line before s) :
    line ≤ p.line := by
  induction line, before, s using piecesFrom.induct with
  | case1 line before => simp [piecesFrom] at h
  | case2 line before s hs hlt ih₁ ih₂ =>
      rw [piecesFrom_of_ne hs] at h
      rcases List.mem_cons.mp h with rfl | h
      · exact le_rfl
      · split_ifs at h
        · exact (Nat.le_succ line).trans (ih₁ h)
        · exact ih₂ h

/-- What has been read of the line is before each later buffer of it. -/
theorem before_prefix {line : ℕ} {before s : Bytes} {p : Piece}
    (h : p ∈ piecesFrom line before s) (hline : p.line = line) : before <+: p.before := by
  induction line, before, s using piecesFrom.induct with
  | case1 line before => simp [piecesFrom] at h
  | case2 line before s hs hlt ih₁ ih₂ =>
      rw [piecesFrom_of_ne hs] at h
      rcases List.mem_cons.mp h with rfl | h
      · exact List.prefix_rfl
      · split_ifs at h
        · have hle := le_line h
          omega
        · exact (List.prefix_append _ _).trans (ih₂ h hline)

/-- All buffers of a line have the same text. -/
theorem text_eq {line : ℕ} {before s : Bytes} {p : Piece} (h : p ∈ piecesFrom line before s)
    (hline : p.line = line) : p.text = before ++ upToNewline s := by
  induction line, before, s using piecesFrom.induct with
  | case1 line before => simp [piecesFrom] at h
  | case2 line before s hs hlt ih₁ ih₂ =>
      rw [piecesFrom_of_ne hs] at h
      rcases List.mem_cons.mp h with rfl | h
      · rw [Piece.text, fgets_append_after]
      · split_ifs at h with hnewline
        · have hle := le_line h
          omega
        · rw [ih₂ h hline, List.append_assoc, ← upToNewline_append hnewline, fgets_append_after]

theorem pieces_pairwise (line : ℕ) (before s : Bytes) :
    (piecesFrom line before s).Pairwise fun p q =>
      p.line = q.line → p.before ++ p.buf <+: q.before := by
  induction line, before, s using piecesFrom.induct with
  | case1 line before => simp [piecesFrom]
  | case2 line before s hs hlt ih₁ ih₂ =>
      rw [piecesFrom_of_ne hs]
      split_ifs
      · refine .cons (fun q hq hline => ?_) ih₁
        have hle := le_line hq
        dsimp only at hline
        omega
      · exact .cons (fun q hq hline => before_prefix hq hline.symm) ih₂

/-- The first text of a line is in some buffer. -/
theorem first_text {line : ℕ} {before s : Bytes} {xs ys : List Piece} {q : Piece}
    (h : piecesFrom line before s = xs ++ q :: ys) (hblank : q.line = line → Blank before)
    (hq : ¬ Blank q.before) :
    ∃ p ∈ xs, p.line = q.line ∧ Blank p.before ∧ ¬ Blank p.buf ∧ p.text = q.text := by
  induction line, before, s using piecesFrom.induct generalizing xs with
  | case1 line before => simp [piecesFrom] at h
  | case2 line before s hs hlt ih₁ ih₂ =>
      rw [piecesFrom_of_ne hs] at h
      cases xs with
      | nil =>
          obtain ⟨rfl, -⟩ := List.cons.inj h
          exact absurd (hblank rfl) hq
      | cons x xs =>
          obtain ⟨rfl, hrest⟩ := List.cons.inj h
          split_ifs at hrest with hnewline
          · obtain ⟨p, hp, hprops⟩ := ih₁ hrest fun _ _ hb => by cases hb
            exact ⟨p, List.mem_cons_of_mem _ hp, hprops⟩
          · by_cases hfirst : q.line = line ∧ ¬ Blank (fgets s)
            · have hmem : q ∈ piecesFrom line (before ++ fgets s) (afterFgets s) := by
                rw [hrest]
                simp
              refine ⟨_, List.mem_cons_self, hfirst.1.symm, hblank hfirst.1, hfirst.2, ?_⟩
              rw [text_eq hmem hfirst.1, Piece.text, fgets_append_after, List.append_assoc,
                ← upToNewline_append hnewline, fgets_append_after]
            · obtain ⟨p, hp, hprops⟩ := ih₂ hrest fun hline b hb => by
                rw [not_and, not_not] at hfirst
                exact (List.mem_append.mp hb).elim (hblank hline b) (hfirst hline b)
              exact ⟨p, List.mem_cons_of_mem _ hp, hprops⟩

theorem upToNewline_eq_self {s : Bytes} (h : newline ∉ upToNewline s) : upToNewline s = s := by
  induction s with
  | nil => rfl
  | cons b s ih =>
      rw [upToNewline] at h ⊢
      split_ifs at h ⊢ with hb
      · exact absurd (hb ▸ List.mem_singleton_self b) h
      · rw [ih fun hs => h (List.mem_cons_of_mem b hs)]

/-- A buffer without a newline is full, or the last of the file. -/
theorem length_fgets {s : Bytes} (hnewline : newline ∉ fgets s) (h : afterFgets s ≠ []) :
    (fgets s).length = bufsiz - 1 := by
  by_contra hshort
  have hall : fgets s = upToNewline s := by
    refine List.take_of_length_le ?_
    rw [fgets, List.length_take] at hshort
    omega
  rw [hall] at hnewline
  refine h ?_
  rw [afterFgets, hall, upToNewline_eq_self hnewline, List.drop_length]

/-- What is before a buffer in its line has filled a buffer, and the line goes on. -/
theorem length_text {line : ℕ} {before s : Bytes} {p : Piece}
    (h : p ∈ piecesFrom line before s) (hbefore : before ≠ [] → bufsiz - 1 ≤ before.length)
    (hp : p.before ≠ []) : bufsiz - 1 < p.text.length := by
  induction line, before, s using piecesFrom.induct with
  | case1 line before => simp [piecesFrom] at h
  | case2 line before s hs hlt ih₁ ih₂ =>
      rw [piecesFrom_of_ne hs] at h
      rcases List.mem_cons.mp h with rfl | h
      · have hlen := hbefore hp
        have hpos := List.length_pos_iff.mpr (upToNewline_ne_nil hs)
        rw [Piece.text, fgets_append_after, List.length_append]
        dsimp only
        omega
      · split_ifs at h with hnewline
        · exact ih₁ h fun hne => absurd rfl hne
        · have hafter : afterFgets s ≠ [] := by
            intro hnil
            simp [hnil, piecesFrom] at h
          refine ih₂ h fun _ => ?_
          rw [List.length_append, length_fgets hnewline hafter]
          omega

/-- A file whose lines fit into the buffer has one buffer for each line. -/
theorem optionsFirst_of_short {content : Bytes}
    (h : ∀ p ∈ pieces content, p.text.length < bufsiz) : OptionsFirst content := by
  intro xs q ys hsplit _ name value _ b hb
  have hq : q ∈ pieces content := by
    rw [hsplit]
    simp
  have hlong := length_text hq (fun hne => absurd rfl hne) (List.ne_nil_of_mem hb)
  have hshort := h q hq
  omega

/-! The calls. -/

section Calls

variable {σ : Type} {func : Bytes → Bytes → σ → Except String σ}

theorem mem_callsMade {ps : List Piece} {s : σ} {c : Call} (h : c ∈ callsMade func ps s) :
    ∃ xs ys, ps = xs ++ c.piece :: ys ∧ (∀ p ∈ xs, parseLine p.str ≠ .syntaxError) ∧
      parseLine c.piece.str = .option c.name c.value := by
  induction ps generalizing s with
  | nil => cases h
  | cons p ps ih =>
      rw [callsMade] at h
      cases hline : parseLine p.str with
      | blank =>
          rw [hline] at h
          obtain ⟨xs, ys, rfl, hxs, hc⟩ := ih h
          exact ⟨p :: xs, ys, rfl, List.forall_mem_cons.mpr ⟨by simp [hline], hxs⟩, hc⟩
      | syntaxError =>
          rw [hline] at h
          cases h
      | option name value =>
          rw [hline] at h
          rcases List.mem_cons.mp h with rfl | h
          · exact ⟨[], ps, rfl, List.forall_mem_nil _, hline⟩
          · cases hf : func name value s with
            | error why =>
                rw [hf] at h
                cases h
            | ok t =>
                rw [hf] at h
                obtain ⟨xs, ys, rfl, hxs, hc⟩ := ih h
                exact ⟨p :: xs, ys, rfl, List.forall_mem_cons.mpr ⟨by simp [hline], hxs⟩, hc⟩

/-- The calls are for buffers of the file, in the order of the file. -/
theorem callsMade_sublist (func : Bytes → Bytes → σ → Except String σ) (ps : List Piece) (s : σ) :
    ((callsMade func ps s).map Call.piece).Sublist ps := by
  induction ps generalizing s with
  | nil => exact .slnil
  | cons p ps ih =>
      rw [callsMade]
      cases parseLine p.str with
      | blank => exact (ih s).cons p
      | syntaxError => exact List.nil_sublist _
      | option name value =>
          dsimp only
          rw [List.map_cons]
          refine .cons_cons p ?_
          cases func name value s with
          | error why => exact List.nil_sublist _
          | ok t => exact ih t

end Calls

/-- A `func` that accepts all options. -/
def accept (_ _ : Bytes) (s : Unit) : Except String Unit := .ok s

theorem accept_append {xs : List Piece} (h : ∀ p ∈ xs, parseLine p.str ≠ .syntaxError)
    (ys : List Piece) :
    callsMade accept (xs ++ ys) () = callsMade accept xs () ++ callsMade accept ys () := by
  induction xs with
  | nil => rfl
  | cons p xs ih =>
      obtain ⟨hp, hxs⟩ := List.forall_mem_cons.mp h
      rw [List.cons_append, callsMade, callsMade]
      cases hline : parseLine p.str with
      | blank => exact ih hxs
      | syntaxError => exact absurd hline hp
      | option name value => exact congrArg (_ :: ·) (ih hxs)

theorem accept_option {p : Piece} {name value : Bytes} (h : parseLine p.str = .option name value)
    (ps : List Piece) :
    callsMade accept (p :: ps) () =
      { piece := p, name := name, value := value } :: callsMade accept ps () := by
  rw [callsMade, h]
  rfl

/-- Each buffer with an option before the first syntax error has its call. -/
theorem mem_accept {xs : List Piece} (ys : List Piece) {q : Piece} {name value : Bytes}
    (hxs : ∀ p ∈ xs, parseLine p.str ≠ .syntaxError) (h : parseLine q.str = .option name value) :
    { piece := q, name := name, value := value } ∈ callsMade accept (xs ++ q :: ys) () := by
  rw [accept_append hxs, accept_option h]
  simp

/-! What holds of the calls of a file. -/

theorem str_isPrefix (p : Piece) : p.str <+: p.buf := List.takeWhile_prefix _

theorem Blank.of_prefix {s t : Bytes} (ht : Blank t) (h : s <+: t) : Blank s :=
  fun b hb => ht b (h.subset hb)

/-- A buffer that has an option is not blank. -/
theorem not_blank_of_option {p : Piece} {name value : Bytes}
    (h : parseLine p.str = .option name value) : ¬ Blank p.buf := by
  intro hblank
  rw [parseLine_of_blank (hblank.of_prefix (str_isPrefix p))] at h
  cases h

/-- The text of a line starts with the string of a buffer that has only blanks before it. -/
theorem text_of_mem {content : Bytes} {p : Piece} (h : p ∈ pieces content) :
    ∃ more, p.text = p.before ++ (p.str ++ more) := by
  obtain ⟨more, hmore⟩ := (str_isPrefix p).trans (buf_prefix_text h)
  exact ⟨more, by rw [Piece.text, hmore]⟩

section Calls

variable {σ : Type} {func : Bytes → Bytes → σ → Except String σ} {content : Bytes}

/-- Each call is for an option with only blanks before it. -/
theorem OptionsFirst.of_mem {s : σ} {c : Call} (hfirst : OptionsFirst content)
    (h : c ∈ callsMade func (pieces content) s) :
    c.piece ∈ pieces content ∧ Blank c.piece.before ∧
      parseLine c.piece.str = .option c.name c.value := by
  obtain ⟨xs, ys, hsplit, hxs, hc⟩ := mem_callsMade h
  refine ⟨?_, hfirst xs c.piece ys hsplit hxs _ _ hc, hc⟩
  rw [hsplit]
  simp

theorem OptionsFirst.once (hfirst : OptionsFirst content) (s : σ) :
    ((callsMade func (pieces content) s).map fun c => c.piece.line).Nodup := by
  have hpairs := (pieces_pairwise 0 [] content).sublist (callsMade_sublist func _ s)
  rw [List.pairwise_map] at hpairs
  rw [List.Nodup, List.pairwise_map]
  refine hpairs.imp_of_mem fun {c d} hc hd hpre hline => ?_
  -- the earlier call's buffer would be among the blanks before the later one
  obtain ⟨-, -, hoption⟩ := hfirst.of_mem hc
  obtain ⟨-, hblank, -⟩ := hfirst.of_mem hd
  have hbefore := hblank.of_prefix (hpre hline)
  exact not_blank_of_option hoption fun b hb => hbefore b (List.mem_append_right _ hb)

/-- Where the options come first each line is one unit. -/
theorem OptionsFirst.oneDirective (hfirst : OptionsFirst content) (s : σ) :
    OneDirective (callsMade func (pieces content) s) where
  once := hfirst.once s
  front c hc := by
    obtain ⟨hmem, hblank, hoption⟩ := hfirst.of_mem hc
    obtain ⟨more, htext⟩ := text_of_mem hmem
    rw [htext]
    exact (parseLine_option hoption).1.append hblank more
  comment c hc := by
    obtain ⟨hmem, hblank, hoption⟩ := hfirst.of_mem hc
    obtain ⟨more, htext⟩ := text_of_mem hmem
    obtain ⟨hfront, hcomment⟩ := parseLine_option hoption
    rw [htext]
    exact not_isComment_append hfront hcomment hblank more

end Calls

theorem isSpace_ne_zero {b : UInt8} (h : isSpace b = true) : b ≠ 0 := by
  rintro rfl
  exact absurd h (by decide)

theorem ne_zero_of_mem_str {p : Piece} {b : UInt8} (h : b ∈ p.str) : b ≠ 0 := by
  have hb := List.mem_takeWhile_imp h
  simpa using hb

/-- The first character of a buffer that is not blank is the first one of its string. -/
theorem dropWhile_str {p : Piece} {c : UInt8} {rest : Bytes}
    (h : p.buf.dropWhile isSpace = c :: rest) (hc : c ≠ 0) :
    ∃ rest, p.str.dropWhile isSpace = c :: rest := by
  have hblank : Blank (p.buf.takeWhile isSpace) := fun _ => List.mem_takeWhile_imp
  have hbuf : p.buf = p.buf.takeWhile isSpace ++ c :: rest := by
    rw [← h, List.takeWhile_append_dropWhile]
  have hstr : p.str = p.buf.takeWhile isSpace ++ c :: rest.takeWhile (· ≠ 0) := by
    rw [Piece.str, hbuf, List.takeWhile_append_of_pos, ← hbuf, List.takeWhile_cons_of_pos]
    · simpa using hc
    · intro b hb
      simpa using isSpace_ne_zero (hblank b (hbuf ▸ hb))
  have hspace : isSpace c = false := by
    have hhead := List.head_dropWhile_not isSpace (l := p.buf) (by simp [h])
    simpa [h] using hhead
  refine ⟨rest.takeWhile (· ≠ 0), ?_⟩
  rw [hstr, dropWhile_of_blank hblank, List.dropWhile_cons_of_neg (by simp [hspace])]

/-- Where a later buffer of a line has the first text of the line as its option, so has the
buffer that this text is in. -/
theorem parseLine_of_first {p q : Piece} {name value : Bytes} (htext : p.text = q.text)
    (hbuf : p.buf <+: upToNewline (p.buf ++ p.rest)) (hbefore : Blank p.before)
    (hnonblank : ¬ Blank p.buf) (hoption : parseLine q.str = .option name value)
    (hfront : AtFront q.text name value) (hcomment : ¬ IsComment q.text) :
    parseLine p.str ≠ .blank := by
  obtain ⟨hname, b, b', rest, -, -, heq⟩ := hfront
  obtain ⟨c, name', rfl⟩ := List.exists_cons_of_ne_nil hname
  have hzero : c ≠ 0 := by
    obtain ⟨-, d, d', rest', -, -, hstr⟩ := (parseLine_option hoption).1
    refine ne_zero_of_mem_str (p := q) ((List.dropWhile_sublist isSpace).subset ?_)
    rw [hstr]
    simp
  have hhash : c ≠ 35 := by
    rintro rfl
    exact hcomment (by rw [IsComment, heq]; rfl)
  obtain ⟨more, hmore⟩ := hbuf
  rw [← htext, Piece.text, ← hmore, dropWhile_of_blank hbefore, List.dropWhile_append,
    if_neg (by rw [List.isEmpty_iff, ← blank_iff]; exact hnonblank)] at heq
  cases hdrop : p.buf.dropWhile isSpace with
  | nil => exact absurd (blank_iff.mpr hdrop) hnonblank
  | cons x xs =>
      rw [hdrop] at heq
      obtain rfl : x = c := by
        have hhead := congrArg List.head? heq
        simpa using hhead
      obtain ⟨tail, hstr⟩ := dropWhile_str hdrop hzero
      exact parseLine_ne_blank hstr hhash

/-- Only files whose options come first have each line as one unit. -/
theorem optionsFirst_of_oneDirective {content : Bytes}
    (h : OneDirective (callsMade accept (pieces content) ())) : OptionsFirst content := by
  intro xs q ys hsplit hxs name value hoption
  by_contra hblank
  have hmem : { piece := q, name := name, value := value } ∈
      callsMade accept (pieces content) () := by
    rw [hsplit]
    exact mem_accept _ hxs hoption
  obtain ⟨p, hp, hline, hbefore, hnonblank, htext⟩ :=
    first_text hsplit (fun _ _ hb => by cases hb) hblank
  have hpmem : p ∈ pieces content := by
    rw [hsplit]
    exact List.mem_append_left _ hp
  have hne := parseLine_of_first htext (buf_prefix_text hpmem) hbefore hnonblank hoption
    (h.front _ hmem) (h.comment _ hmem)
  cases hfirst : parseLine p.str with
  | blank => exact hne hfirst
  | syntaxError => exact hxs p hp hfirst
  | option name' value' =>
      -- the line has two calls
      obtain ⟨as, bs, rfl⟩ := List.append_of_mem hp
      have honce := h.once
      rw [hsplit, accept_append hxs, accept_option hoption, List.map_append,
        List.nodup_append] at honce
      have hearlier := mem_accept bs
        (fun r hr => hxs r (List.mem_append_left _ hr)) hfirst
      exact honce.2.2 p.line (List.mem_map.mpr ⟨_, hearlier, rfl⟩) q.line (by simp) hline

theorem one_directive_iff (content : Bytes) :
    (∀ (σ : Type) (func : Bytes → Bytes → σ → Except String σ) (s : σ),
        OneDirective (callsMade func (pieces content) s)) ↔ OptionsFirst content := by
  constructor
  · intro h
    exact optionsFirst_of_oneDirective (h Unit accept ())
  · intro h σ func s
    exact h.oneDirective s

/-! What `fread_config_name_value` makes of a file. -/

/-- What the loop gets of the file, up to a read error if there is one. -/
structure FgetsOf (content : Bytes) (r : List Bytes × Bool) : Prop where
  start : r.1 <+: (pieces content).map Piece.str
  whole : r.2 = false → r.1 = (pieces content).map Piece.str

/-- The calls for the file are what it returns. -/
theorem freadConfigNameValue_returned {σ : Type} {func : Bytes → Bytes → σ → Except String σ}
    {fname content : Bytes} {fd : ℕ} {s t : σ} {tr : List (Event SysRes)}
    (hfile : ∀ r, ⟨.fgetsAll fd, r⟩ ∈ tr → FgetsOf content r)
    (h : Runs (freadConfigNameValue func fname s fd) tr (.returned t)) :
    runCalls func (callsMade func (pieces content) s) s = .ok t := by
  obtain ⟨⟨bufs, ferror⟩, rest, rfl, hlines⟩ := returns_op_bind.mp h
  have hbufs := hfile (bufs, ferror) List.mem_cons_self
  clear h
  dsimp only at hlines
  cases heach : eachOption func fname 1 bufs s with
  | error why =>
      rw [heach] at hlines
      exact (returns_die hlines).elim
  | ok s' =>
      rw [heach] at hlines
      change Runs (ite _ _ _) rest _ at hlines
      split_ifs at hlines with herror
      · exact (returns_die hlines).elim
      · obtain ⟨-, rfl⟩ := returns_ret.mp hlines
        have hwhole : bufs = (pieces content).map Piece.str := hbufs.whole (by simpa using herror)
        rw [hwhole] at heach
        rcases eachOption_callsMade fname 1 (pieces content) s with hcalls | ⟨_, _, -, herror⟩
        · rw [← hcalls, heach]
        · rw [heach] at herror
          cases herror

/-- A file whose lines fit into the buffer is read line by line: each line that has a call has one,
with its first name and value, and the result is what the calls make of the start. -/
theorem short_lines_read {σ : Type} {func : Bytes → Bytes → σ → Except String σ}
    {fname content : Bytes} {fd : ℕ} {s t : σ} {tr : List (Event SysRes)}
    (hshort : ∀ p ∈ pieces content, p.text.length < bufsiz)
    (hfile : ∀ r, ⟨.fgetsAll fd, r⟩ ∈ tr → FgetsOf content r)
    (h : Runs (freadConfigNameValue func fname s fd) tr (.returned t)) :
    ∃ calls, OneDirective calls ∧ runCalls func calls s = .ok t :=
  ⟨_, (optionsFirst_of_short hshort).oneDirective s, freadConfigNameValue_returned hfile h⟩

/-! A comment that is longer than the buffer. -/

/-- A comment that fills the buffer. -/
def longComment : Bytes := 35 :: List.replicate 8190 120

theorem length_longComment : longComment.length = bufsiz - 1 := by
  rw [longComment, List.length_cons, List.length_replicate]
  rfl

theorem newline_not_mem_longComment : newline ∉ longComment := by
  intro h
  rcases List.mem_cons.mp h with h | h
  · exact absurd h (by decide)
  · exact absurd (List.eq_of_mem_replicate h) (by decide)

theorem fgets_longComment (s : Bytes) : fgets (longComment ++ s) = longComment := by
  rw [fgets, upToNewline_append newline_not_mem_longComment]
  exact List.take_left' length_longComment

theorem parseLine_str_comment {p : Piece} {rest : Bytes} (h : p.buf = 35 :: rest) :
    parseLine p.str = .blank := by
  have hstr : p.str.dropWhile isSpace = 35 :: rest.takeWhile (· ≠ 0) := by
    rw [Piece.str, h]
    rfl
  exact parseLine_comment hstr

theorem isComment_longComment (s : Bytes) : IsComment (longComment ++ s) := by
  rw [IsComment, longComment, List.cons_append, List.dropWhile_cons_of_neg (by decide)]
  rfl

theorem pieces_longComment {s : Bytes} (h : s ≠ []) :
    pieces (longComment ++ s) =
      [{ line := 0, before := [], buf := longComment, rest := s }] ++
        { line := 0, before := longComment, buf := fgets s, rest := afterFgets s } ::
          if newline ∈ fgets s then piecesFrom 1 [] (afterFgets s)
          else piecesFrom 0 (longComment ++ fgets s) (afterFgets s) := by
  have hafter : afterFgets (longComment ++ s) = s := by
    rw [afterFgets, fgets_longComment, List.drop_left]
  rw [pieces, piecesFrom_of_ne (by simp [h]), fgets_longComment, hafter,
    if_neg newline_not_mem_longComment, piecesFrom_of_ne h]
  rfl

/-- The end of a comment line of 8202 bytes names a user. -/
theorem comment_sets_user1 :
    ¬ ∀ content : Bytes, content.length ≤ maxConfigSize →
      ∀ (σ : Type) (func : Bytes → Bytes → σ → Except String σ) (s : σ),
        OneDirective (callsMade func (pieces content) s) := by
  intro h
  have hsmall : (longComment ++ str "user1=evil\n").length ≤ maxConfigSize := by
    rw [List.length_append, length_longComment]
    decide
  have hcomment := (h _ hsmall Unit accept ()).comment
  rw [pieces_longComment (by decide)] at hcomment
  refine hcomment ⟨_, str "user1", str "evil"⟩ (mem_accept _ ?_ ?_) (isComment_longComment _)
  · intro p hp
    obtain rfl := List.mem_singleton.mp hp
    rw [parseLine_str_comment rfl]
    exact fun hblank => by cases hblank
  · rfl

end HasherPriv.Config.Lines
