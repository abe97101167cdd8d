import SqlGen.Proofs.Printing.Inlining

/-!
# Scanning for comments

Two minus signs outside of quotes start a comment (`StartsComment`).  A scanner that goes through a
text remembers the quotes that are open and whether the last character was such a minus sign.

The states are ordered by what may follow.  Whatever is no comment behind a minus sign is none
behind another character, either, and blanks only bring a scanner down (`Scan.below_step_blank`).  So
the margins of a page start no comment, and it is enough to scan the plain text of a document
(`Page.below_scan_addAll`).  `Doc.Scans` says from which state to which one it leads.  Documents in
a row go through the states one after the other.
-/

namespace SqlGen

/-! ## Comments -/

/-- The mark of the quotes that are open behind the characters.  A mark that is written twice closes
quotes and opens them again. -/
def openMark : (mark : Option Char) → List Char → Option Char
  | mark, [] => mark
  | none, c :: rest => openMark (if c = '\'' ∨ c = '"' then some c else none) rest
  | some mark, c :: rest => openMark (if c = mark then none else some mark) rest

/-- Two minus signs stand outside of all quotes. -/
def StartsComment (s : String) : Prop :=
  ∃ before after, s.toList = before ++ '-' :: '-' :: after ∧ openMark none before = none

/-! ## The scanner -/

/-- What is known of the text in front of a character. -/
inductive Scan where
  | outside
  /-- A minus sign, which is the first of a comment if another one follows. -/
  | minus
  | literal
  | identifier
  | comment
deriving DecidableEq

namespace Scan

/-- A character outside of quotes.  A minus sign leads to `dash`. -/
def enter (dash : Scan) (c : Char) : Scan :=
  if c = '-' then dash
  else if c = '\'' then literal
  else if c = '"' then identifier
  else outside

def step : Scan → Char → Scan
  | outside, c => enter minus c
  | minus, c => enter comment c
  | literal, c => if c = '\'' then outside else literal
  | identifier, c => if c = '"' then outside else identifier
  | comment, _ => comment

def run (s : Scan) (cs : List Char) : Scan := cs.foldl step s

@[simp] theorem run_nil (s : Scan) : s.run [] = s := rfl

@[simp] theorem run_cons (s : Scan) (c : Char) (cs : List Char) :
    s.run (c :: cs) = (s.step c).run cs := rfl

@[simp] theorem run_append (s : Scan) (a b : List Char) : s.run (a ++ b) = (s.run a).run b :=
  List.foldl_append

theorem run_comment (cs : List Char) : comment.run cs = comment := by
  induction cs with
  | nil => rfl
  | cons c rest ih => exact ih

/-- The mark of the quotes that are open. -/
def mark : Scan → Option Char
  | literal => some '\''
  | identifier => some '"'
  | _ => none

/-- Outside of comments the scanner knows the quotes that are open. -/
theorem mark_run (s : Scan) (cs : List Char) :
    s.run cs = comment ∨ (s.run cs).mark = openMark s.mark cs := by
  have enter (dash : Scan) (none : dash.mark = none) (c : Char) :
      (enter dash c).mark = if c = '\'' ∨ c = '"' then some c else Option.none := by
    unfold Scan.enter
    split
    next minus => simp [none, minus]
    next =>
      split
      next single => simp [mark, single]
      next =>
        split
        next double => simp [mark, double]
        next single double => simp [mark, single, double]
  induction cs generalizing s with
  | nil => exact .inr (by cases s <;> rfl)
  | cons c rest ih =>
      rcases ih (s.step c) with ended | open_
      · exact .inl ended
      · cases s with
        | comment => exact .inl (run_comment _)
        | outside | minus =>
            refine .inr (open_.trans ?_)
            rw [step, enter _ rfl c]
            rfl
        | literal | identifier =>
            refine .inr (open_.trans ?_)
            rw [step, apply_ite mark]
            rfl

/-- The scanner finds the comments. -/
theorem run_eq_comment {s : String} (h : StartsComment s) : outside.run s.toList = comment := by
  obtain ⟨before, after, text, closed⟩ := h
  have twoSigns {t : Scan} (none : t.mark = none) : (t.step '-').step '-' = comment := by
    cases t with
    | outside | minus | comment => rfl
    | literal | identifier => cases none
  rw [text, run_append, run_cons, run_cons]
  rcases mark_run outside before with ended | open_
  · rw [ended]
    exact run_comment after
  · rw [twoSigns (open_.trans closed)]
    exact run_comment after

/-! ## The order of the states -/

/-- Everything that leads to a comment behind the first state does so behind the second one. -/
def Below (s t : Scan) : Prop := s = t ∨ (s = outside ∧ t = minus) ∨ t = comment

instance : DecidableRel Below := fun s t =>
  inferInstanceAs (Decidable (s = t ∨ (s = outside ∧ t = minus) ∨ t = comment))

namespace Below

variable {s t u : Scan}

theorem refl (s : Scan) : s.Below s := .inl rfl

theorem trans (h : s.Below t) (h' : t.Below u) : s.Below u := by
  rcases h' with rfl | ⟨rfl, rfl⟩ | rfl
  · exact h
  · rcases h with rfl | ⟨-, impossible⟩ | impossible
    · exact .inr (.inl ⟨rfl, rfl⟩)
    · cases impossible
    · cases impossible
  · exact .inr (.inr rfl)

theorem step (h : s.Below t) (c : Char) : (s.step c).Below (t.step c) := by
  rcases h with rfl | ⟨rfl, rfl⟩ | rfl
  · exact refl _
  · show (enter minus c).Below (enter comment c)
    unfold enter
    split
    next => exact .inr (.inr rfl)
    next => exact refl _
  · exact .inr (.inr rfl)

theorem run (h : s.Below t) (cs : List Char) : (s.run cs).Below (t.run cs) := by
  induction cs generalizing s t with
  | nil => exact h
  | cons c rest ih => exact ih (h.step c)

end Below

theorem outside_below_minus : outside.Below minus := .inr (.inl ⟨rfl, rfl⟩)

/-- Behind a minus sign a text only must not go on with another one. -/
theorem below_run_minus {cs : List Char} (h : (outside.run cs).Below minus)
    (start : cs.head? ≠ some '-') : (minus.run cs).Below minus := by
  cases cs with
  | nil => exact .refl _
  | cons c rest =>
      have other : c ≠ '-' := fun same => start (congrArg some same)
      have same : minus.step c = outside.step c := by simp [step, enter, other]
      rw [run_cons, same]
      exact h

theorem below_step_blank (s : Scan) : (s.step ' ').Below s := by
  cases s <;> decide

theorem below_run_margin (s : Scan) (depth : Nat) :
    (s.run (Page.margin depth).toList).Below s := by
  induction depth with
  | zero => exact .refl s
  | succ depth ih =>
      have blanks : (Page.margin (depth + 1)).toList =
          ' ' :: ' ' :: ' ' :: ' ' :: (Page.margin depth).toList := by
        rw [Page.margin, String.toList_append]
        rfl
      have first : ((((s.step ' ').step ' ').step ' ').step ' ').Below s :=
        (below_step_blank _).trans <| (below_step_blank _).trans <|
          (below_step_blank _).trans (below_step_blank s)
      rw [blanks]
      exact (first.run _).trans ih

end Scan

/-! ## Plain text -/

/-- The text of a piece without any margin. -/
def Piece.plain (piece : Piece) : List Char :=
  match piece.content with
  | .text s | .verbatim s => s.toList
  | .line => ['\n']
  | .parameter _ => []

def Doc.plain (d : Doc) : List Char := d.flatMap Piece.plain

namespace Page

/-- The state behind what is on the page. -/
def scan (p : Page) : Scan := Scan.outside.run p.sql.toList

theorem scan_newline (p : Page) : p.newline.scan = p.scan.step '\n' := by
  simp [scan, newline]

theorem below_scan_put (p : Page) (depth : Nat) (s : String) :
    (p.put depth s).scan.Below (p.scan.run s.toList) := by
  rw [scan, sql_put, String.toList_append, String.toList_append, Scan.run_append, Scan.run_append]
  refine Scan.Below.run ?_ s.toList
  split
  next => exact Scan.below_run_margin _ depth
  next => exact .refl _

theorem below_scan_foldl_putChar (p : Page) (depth : Nat) (cs : List Char) :
    (cs.foldl (putChar depth) p).scan.Below (p.scan.run cs) := by
  induction cs generalizing p with
  | nil => exact .refl _
  | cons c rest ih =>
      refine (ih (p.putChar depth c)).trans (Scan.Below.run ?_ rest)
      unfold putChar
      split
      next isBreak =>
        rw [isBreak, scan_newline]
        exact .refl _
      next =>
        have put := p.below_scan_put depth (String.singleton c)
        rwa [String.toList_singleton] at put

theorem below_scan_add (p : Page) (piece : Piece) :
    (p.add piece).scan.Below (p.scan.run piece.plain) := by
  unfold add Piece.plain
  cases piece.content with
  | text s => exact p.below_scan_foldl_putChar piece.depth s.toList
  | verbatim s => exact p.below_scan_put piece.depth s
  | line =>
      dsimp only
      rw [scan_newline]
      exact .refl _
  | parameter name =>
      dsimp only
      rw [scan, sql_mention]
      exact .refl _

/-- A page is at most in the state behind the plain text of what is written on it. -/
theorem below_scan_addAll (p : Page) (d : Doc) :
    (p.addAll d).scan.Below (p.scan.run d.plain) := by
  induction d generalizing p with
  | nil => exact .refl _
  | cons piece rest ih =>
      rw [Doc.plain, List.flatMap_cons, Scan.run_append]
      exact (ih (p.add piece)).trans ((p.below_scan_add piece).run _)

end Page

/-! ## Documents -/

namespace Doc

/-- Behind one state the text of the document leads to another one, or below it. -/
def Scans (s t : Scan) (d : Doc) : Prop := (s.run d.plain).Below t

instance (s t : Scan) (d : Doc) : Decidable (d.Scans s t) :=
  inferInstanceAs (Decidable ((s.run d.plain).Below t))

theorem plain_append (a b : Doc) : (a ++ b).plain = a.plain ++ b.plain := List.flatMap_append

theorem plain_indent (d : Doc) : d.indent.plain = d.plain := by
  rw [indent, plain, List.flatMap_map]
  rfl

@[simp] theorem plain_text (s : String) : (text s).plain = s.toList := by
  simp [plain, text, Piece.plain]

@[simp] theorem plain_verbatim (s : String) : (verbatim s).plain = s.toList := by
  simp [plain, verbatim, Piece.plain]

theorem scans_text {s t : Scan} {words : String} :
    (text words).Scans s t ↔ (s.run words.toList).Below t := by
  rw [Scans, plain_text]

theorem scans_verbatim {s t : Scan} {words : String} :
    (verbatim words).Scans s t ↔ (s.run words.toList).Below t := by
  rw [Scans, plain_verbatim]

/-- A text that starts no comment is printed without one. -/
theorem not_startsComment_render {d : Doc} (h : d.Scans .outside .minus) :
    ¬ StartsComment d.render.sql := by
  intro comment
  have found : (Page.addAll {} d).scan = .comment := Scan.run_eq_comment comment
  have below : (Page.addAll {} d).scan.Below .minus := (Page.below_scan_addAll {} d).trans h
  rw [found] at below
  revert below
  decide

namespace Scans

variable {s t u : Scan} {a b : Doc}

theorem nil (s : Scan) : Scans s s [] := .refl s

theorem append (ha : a.Scans s t) (hb : b.Scans t u) : (a ++ b).Scans s u := by
  rw [Scans, plain_append, Scan.run_append]
  exact (ha.run b.plain).trans hb

/-- A document that leads to a state leads there from below, too, and to every state above. -/
theorem mono {s' t' : Scan} (h : a.Scans s t) (before : s'.Below s) (after : t.Below t') :
    a.Scans s' t' := ((before.run a.plain).trans h).trans after

theorem weaken (h : a.Scans s .outside) : a.Scans s .minus :=
  h.mono (.refl s) Scan.outside_below_minus

theorem indent (h : a.Scans s t) : a.indent.Scans s t := by
  rwa [Scans, plain_indent]

theorem behindMinus (h : a.Scans .outside .minus) (start : a.plain.head? ≠ some '-') :
    a.Scans .minus .minus := Scan.below_run_minus h start

/-- Parentheses let a document start with a minus sign. -/
theorem enclose (h : a.Scans .outside .minus) : (Doc.enclose a).Scans .minus .outside := by
  have opening : (text "(").Scans .minus .outside := by decide
  have closing : (text ")").Scans .minus .outside := by decide
  exact (opening.append h).append closing

theorem encloseIf (h : a.Scans .outside .minus) (needed : Bool) :
    (Doc.encloseIf needed a).Scans .outside .minus := by
  cases needed with
  | false => exact h
  | true => exact h.enclose.weaken.mono Scan.outside_below_minus (.refl _)

theorem separate {separator : Doc} (between : separator.Scans .minus .outside) {ds : List Doc}
    (each : ∀ d ∈ ds, d.Scans .outside .minus) :
    (Doc.separate separator ds).Scans .outside .minus := by
  match ds with
  | [] => exact Scan.outside_below_minus
  | [d] => exact each d List.mem_cons_self
  | d :: e :: rest =>
      have later := separate between fun x mem => each x (List.mem_cons_of_mem d mem)
      exact ((each d List.mem_cons_self).append between).append later

end Scans

end Doc

end SqlGen
