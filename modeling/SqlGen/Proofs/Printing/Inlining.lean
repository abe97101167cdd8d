import SqlGen.Pass.Substitution
import SqlGen.Proofs.Pass.Success
import SqlGen.Proofs.Printing.Parameters

/-!
# Printing after inlining

Inlining puts constants in the place of parameters, and the printed text has their literals in the
place of the placeholders (`Expr.print_after_inline`).  A literal that starts with a minus sign gets
parentheses under a negation.

Two pages are compared while the trees are printed.  A placeholder is laid out and a literal is
verbatim, so they may leave the page in different states: behind a placeholder that ends in a line
break the next text gets a margin.  Outside of set operations the margin is empty and the difference
never shows.  Inside of them `Occurrence.IsSteady` says when there is none.
-/

namespace SqlGen

/-! ## Texts in the place of others -/

/-- The texts `before` stand in a text one after the other, and in the second text the texts `after`
stand in their places. -/
inductive Substitutes : (before after : List String) → String → String → Prop where
  | nil (rest : String) : Substitutes [] [] rest rest
  | cons (gap b a : String) {before after : List String} {s t : String}
      (later : Substitutes before after s t) :
      Substitutes (b :: before) (a :: after) (gap ++ b ++ s) (gap ++ a ++ t)

namespace Substitutes

variable {before after : List String} {s t : String}

theorem append_left (h : Substitutes before after s t) (text : String) :
    Substitutes before after (text ++ s) (text ++ t) := by
  cases h with
  | nil => exact .nil _
  | cons gap b a later =>
      have longer := Substitutes.cons (text ++ gap) b a later
      simpa only [String.append_assoc] using longer

/-- The second text is longer by what the texts put there are longer. -/
theorem length_add (h : Substitutes before after s t) :
    s.length + (after.flatMap String.toList).length =
      t.length + (before.flatMap String.toList).length := by
  induction h with
  | nil rest => rfl
  | cons gap b a _ ih =>
      simp only [String.length_append, List.flatMap_cons, List.length_append, String.length_toList]
      omega

end Substitutes

/-! ## Pages that go on alike -/

namespace Page

theorem sql_mention (p : Page) (name : String) : (p.mention name).sql = p.sql := by
  unfold mention
  split <;> rfl

theorem lineStart_mention (p : Page) (name : String) :
    (p.mention name).lineStart = p.lineStart := by
  unfold mention
  split <;> rfl

theorem sql_put (p : Page) (depth : Nat) (s : String) :
    (p.put depth s).sql =
      p.sql ++ (if p.lineStart = true ∧ s ≠ "" then margin depth else "") ++ s := by
  unfold put
  by_cases empty : s = ""
  · simp [empty]
  · have some : s.isEmpty = false := String.isEmpty_eq_false_iff.mpr empty
    cases p.lineStart <;> simp [some, empty]

theorem lineStart_put (p : Page) (depth : Nat) (s : String) :
    (p.put depth s).lineStart = (p.lineStart && s.isEmpty) := by
  unfold put
  cases empty : s.isEmpty <;> simp

/-- Behind some text another one goes on in its line. -/
theorem put_put (p : Page) (depth : Nat) {s : String} (some : s ≠ "") (t : String) :
    (p.put depth s).put depth t = p.put depth (s ++ t) := by
  have first : s.isEmpty = false := String.isEmpty_eq_false_iff.mpr some
  have both : (s ++ t).isEmpty = false := by simp [String.isEmpty_eq_false_iff, some]
  cases empty : t.isEmpty with
  | true =>
      obtain rfl := String.isEmpty_iff.mp empty
      simp [put]
  | false => simp [put, first, both, empty, String.append_assoc]

/-- A text that is laid out starts a line if it ends in a line break. -/
theorem lineStart_foldl_putChar (p : Page) (depth : Nat) (cs : List Char) :
    (cs.foldl (putChar depth) p).lineStart = cs.getLast?.elim p.lineStart fun c => c == '\n' := by
  induction cs generalizing p with
  | nil => rfl
  | cons c rest ih =>
      rw [List.foldl_cons, ih, List.getLast?_cons]
      cases rest.getLast? with
      | some last => rfl
      | none =>
          show (p.putChar depth c).lineStart = (c == '\n')
          unfold putChar
          split
          next isBreak => simp [newline, isBreak]
          next other =>
            have written : (String.singleton c).isEmpty = false := by
              simp [String.isEmpty_eq_false_iff]
            rw [lineStart_put, written, Bool.and_false, beq_eq_false_iff_ne.mpr other]

/-- The line that a page has started gets its margin before a text that does not end it. -/
theorem laid_eq (depth : Nat) (lineStart : Bool) (cs : List Char) :
    laid depth lineStart cs =
      (if lineStart = true ∧ cs ≠ [] ∧ cs.head? ≠ some '\n' then (margin depth).toList else []) ++
        laid depth false cs := by
  cases cs with
  | nil => simp [laid]
  | cons c rest => by_cases isBreak : c = '\n' <;> simp [laid, isBreak]

theorem sql_add_text (p : Page) (depth : Nat) (s : String) :
    (p.add ⟨depth, .text s⟩).sql =
      p.sql ++ (if p.lineStart = true ∧ s ≠ "" ∧ s.toList.head? ≠ some '\n' then margin depth
        else "") ++ String.ofList (laid depth false s.toList) := by
  show (s.toList.foldl (putChar depth) p).sql = _
  rw [sql_foldl_putChar, laid_eq, String.ofList_append, ← String.append_assoc,
    apply_ite String.ofList, String.ofList_toList]
  simp only [ne_eq, String.toList_eq_nil_iff, String.ofList_nil]

theorem sql_add_zero (p : Page) (content : Content) :
    (p.add ⟨0, content⟩).sql = p.sql ++ Piece.written ⟨0, content⟩ := by
  cases content with
  | text s =>
      show (s.toList.foldl (putChar 0) p).sql = _
      simp only [sql_foldl_putChar_zero, Piece.written, laid_zero]
  | verbatim s => exact p.sql_put_zero s
  | line =>
      apply String.toList_injective
      simp [add, newline, Piece.written]
  | parameter name =>
      show (p.mention name).sql = _
      rw [sql_mention, Piece.written, String.append_empty]

theorem sql_add_line (p : Page) : p.newline.sql = p.sql ++ "\n" := by
  apply String.toList_injective
  simp [newline]

/-- Two pages have both started a line, or both have not.  Outside of all indentation this does not
matter. -/
def Alike (p q : Page) (depth : Nat) : Prop := p.lineStart = q.lineStart ∨ depth = 0

/-- Pages that are alike go on with the same text and stay alike. -/
theorem exists_add (p q : Page) (piece : Piece) (alike : p.Alike q piece.depth) :
    ∃ text, (p.add piece).sql = p.sql ++ text ∧ (q.add piece).sql = q.sql ++ text ∧
      (p.add piece).Alike (q.add piece) piece.depth := by
  rcases alike with same | outside
  · have onP : Extends p.sql { lineStart := p.lineStart } p := ⟨String.append_empty.symm, rfl⟩
    have onQ : Extends q.sql { lineStart := p.lineStart } q :=
      ⟨String.append_empty.symm, same.symm⟩
    have afterP := onP.add piece
    have afterQ := onQ.add piece
    exact ⟨_, afterP.sql, afterQ.sql, .inl (afterP.lineStart.trans afterQ.lineStart.symm)⟩
  · obtain ⟨depth, content⟩ := piece
    obtain rfl : depth = 0 := outside
    exact ⟨_, p.sql_add_zero content, q.sql_add_zero content, .inr rfl⟩

end Page

/-! ## Values in the place of parameters -/

/-- What is printed in the place of a parameter. -/
def Mention.inlined (d : Dialect) (values : Bindings) (m : Mention) : String :=
  match values.lookup m.name with
  | some v =>
      if m.negated && (d.literal v).toList.head? == some '-' then "(" ++ d.literal v ++ ")"
      else d.literal v
  | none => m.printed d

/-- The document of what is printed in the place of a parameter. -/
def Dialect.inlinedDoc (d : Dialect) (values : Bindings) (name : String) (negated : Bool) : Doc :=
  match values.lookup name with
  | some v =>
      Doc.encloseIf (negated && (d.literal v).toList.head? == some '-') (Doc.verbatim (d.literal v))
  | none => d.mentioned name negated

/-- A parameter at its place on a page. -/
structure Occurrence where
  name : String
  depth : Nat
  /-- It is the first of its line. -/
  lineStart : Bool
deriving DecidableEq, Repr

/-- The parameters that a document mentions, on a page that goes on with it. -/
def Doc.occurrences (p : Page) : Doc → List Occurrence
  | [] => []
  | piece :: rest =>
      (piece.parameter?.toList.map fun name => ⟨name, piece.depth, p.lineStart⟩) ++
        occurrences (p.add piece) rest

/-- A literal leaves the page as the placeholder does.  Outside of set operations this does not
matter. -/
def Occurrence.IsSteady (d : Dialect) (values : Bindings) (o : Occurrence) : Prop :=
  ∀ v, values.lookup o.name = some v → o.depth = 0 ∨
    (d.placeholder o.name).toList.getLast? ≠ some '\n' ∧
    (o.lineStart = true → (d.placeholder o.name).toList.head? ≠ some '\n' ∧
      (d.placeholder o.name = "" ↔ d.literal v = ""))

namespace Page

/-- A literal is put on a page behind the margin that the line needs. -/
theorem addAll_encloseIf_verbatim (p : Page) (depth : Nat) (needed : Bool) (s : String) :
    p.addAll (Doc.indent^[depth] (Doc.encloseIf needed (Doc.verbatim s))) =
      p.put depth (if needed then "(" ++ s ++ ")" else s) := by
  rw [Doc.iterate_indent]
  cases needed with
  | false => simp [Doc.encloseIf, Doc.verbatim, add]
  | true =>
      have parenthesis (p : Page) {text : String} (h : text = "(" ∨ text = ")") :
          p.add ⟨depth, .text text⟩ = p.put depth text := by
        rcases h with rfl | rfl <;> simp [add, putChar]
      have inside (p : Page) : p.add ⟨depth, .verbatim s⟩ = p.put depth s := rfl
      have opening : "(" ≠ "" := by decide
      have opened : "(" ++ s ≠ "" := by simp
      simp only [Doc.encloseIf, Doc.enclose, Doc.verbatim, Doc.text, if_true, List.cons_append,
        List.nil_append, List.map_cons, List.map_nil, Nat.zero_add, addAll_cons, addAll_nil]
      rw [parenthesis _ (.inl rfl), inside, parenthesis _ (.inr rfl), put_put _ _ opening,
        put_put _ _ opened]

end Page

/-! ## One parameter on two pages -/

namespace Mention

open Page

variable {d : Dialect} {values : Bindings}

/-- The margin in front of a placeholder. -/
def gap (d : Dialect) (m : Mention) (lineStart : Bool) : String :=
  if lineStart = true ∧ d.placeholder m.name ≠ "" ∧
    (d.placeholder m.name).toList.head? ≠ some '\n' then margin m.depth else ""

theorem sql_add_piece (p : Page) (m : Mention) :
    ((p.mention m.name).add (m.piece d)).sql = p.sql ++ m.gap d p.lineStart ++ m.printed d := by
  have laid := sql_add_text (p.mention m.name) m.depth (d.placeholder m.name)
  rwa [sql_mention, lineStart_mention] at laid

theorem lineStart_add_piece (p : Page) (m : Mention) :
    ((p.mention m.name).add (m.piece d)).lineStart =
      (d.placeholder m.name).toList.getLast?.elim p.lineStart fun c => c == '\n' := by
  have laid := lineStart_foldl_putChar (p.mention m.name) m.depth (d.placeholder m.name).toList
  rwa [lineStart_mention] at laid

theorem gap_of_outside {m : Mention} (outside : m.depth = 0) (lineStart : Bool) :
    m.gap d lineStart = "" := by
  rw [gap, outside, margin, ite_self]

/-- A parameter without a value is printed on both pages. -/
theorem exists_add_of_unbound (p q : Page) (m : Mention) (alike : p.Alike q m.depth) :
    ∃ gap, ((p.mention m.name).add (m.piece d)).sql = p.sql ++ gap ++ m.printed d ∧
      ((q.mention m.name).add (m.piece d)).sql = q.sql ++ gap ++ m.printed d ∧
      ((p.mention m.name).add (m.piece d)).Alike ((q.mention m.name).add (m.piece d)) m.depth := by
  have gaps : m.gap d p.lineStart = m.gap d q.lineStart := by
    rcases alike with same | outside
    · rw [same]
    · rw [gap_of_outside outside, gap_of_outside outside]
  refine ⟨m.gap d p.lineStart, sql_add_piece p m, gaps ▸ sql_add_piece q m, ?_⟩
  have mentioned : (p.mention m.name).Alike (q.mention m.name) m.depth := by
    rwa [Alike, lineStart_mention, lineStart_mention]
  obtain ⟨-, -, -, later⟩ := Page.exists_add _ _ (m.piece d) mentioned
  exact later

theorem inlined_eq_empty_iff {m : Mention} {v : Value} (bound : values.lookup m.name = some v) :
    m.inlined d values = "" ↔ d.literal v = "" := by
  rw [Mention.inlined, bound]
  dsimp only
  split
  next sign =>
    have some : d.literal v ≠ "" := by
      intro empty
      simp [empty] at sign
    simp [some]
  next => exact Iff.rfl

/-- The first text of a line is missing on both pages or on none. -/
theorem inlined_eq_empty_iff_placeholder {m : Mention} {v : Value}
    (bound : values.lookup m.name = some v) (inside : m.depth ≠ 0)
    (steady : Occurrence.IsSteady d values ⟨m.name, m.depth, true⟩) :
    m.inlined d values = "" ↔ d.placeholder m.name = "" := by
  obtain ⟨-, beginning⟩ := (steady v bound).resolve_left inside
  obtain ⟨-, empty⟩ := beginning rfl
  exact (inlined_eq_empty_iff bound).trans empty.symm

/-- The margin in front of what is printed in the place of a parameter. -/
theorem gap_of_bound {m : Mention} {v : Value} {lineStart : Bool}
    (bound : values.lookup m.name = some v)
    (steady : Occurrence.IsSteady d values ⟨m.name, m.depth, lineStart⟩) :
    (if lineStart = true ∧ m.inlined d values ≠ "" then margin m.depth else "") =
      m.gap d lineStart := by
  by_cases outside : m.depth = 0
  · rw [gap_of_outside outside, outside, margin, ite_self]
  · cases lineStart with
    | false => simp [gap]
    | true =>
        have empty := inlined_eq_empty_iff_placeholder bound outside steady
        obtain ⟨-, beginning⟩ := (steady v bound).resolve_left outside
        obtain ⟨first, -⟩ := beginning rfl
        simp only [gap, ne_eq, empty, first, not_false_eq_true, true_and, and_true]

/-- What is printed in the place of a parameter starts a line if the placeholder does. -/
theorem lineStart_of_bound {m : Mention} {v : Value} {lineStart : Bool}
    (bound : values.lookup m.name = some v) (inside : m.depth ≠ 0)
    (steady : Occurrence.IsSteady d values ⟨m.name, m.depth, lineStart⟩) :
    ((d.placeholder m.name).toList.getLast?.elim lineStart fun c => c == '\n') =
      (lineStart && (m.inlined d values).isEmpty) := by
  obtain ⟨ending, -⟩ := (steady v bound).resolve_left inside
  cases last : (d.placeholder m.name).toList.getLast? with
  | none =>
      have placeholder : d.placeholder m.name = "" :=
        String.toList_eq_nil_iff.mp (List.getLast?_eq_none_iff.mp last)
      cases lineStart with
      | false => rfl
      | true =>
          have empty := inlined_eq_empty_iff_placeholder bound inside steady
          rw [empty.mpr placeholder]
          rfl
  | some c =>
      have written : (c == '\n') = false := by
        rw [last] at ending
        exact beq_eq_false_iff_ne.mpr fun isBreak => ending (congrArg some isBreak)
      show (c == '\n') = _
      cases lineStart with
      | false => exact written
      | true =>
          have empty := inlined_eq_empty_iff_placeholder bound inside steady
          have placeholder : d.placeholder m.name ≠ "" := by
            intro missing
            rw [missing] at last
            cases last
          have literal : m.inlined d values ≠ "" := fun missing => placeholder (empty.mp missing)
          rw [written, String.isEmpty_eq_false_iff.mpr literal, Bool.and_false]

/-- A parameter on two pages, where it has a value on the second one. -/
theorem exists_add_of_bound (p q : Page) (m : Mention) {v : Value}
    (bound : values.lookup m.name = some v) (alike : p.Alike q m.depth)
    (steady : Occurrence.IsSteady d values ⟨m.name, m.depth, p.lineStart⟩) :
    ∃ gap, ((p.mention m.name).add (m.piece d)).sql = p.sql ++ gap ++ m.printed d ∧
      (q.put m.depth (m.inlined d values)).sql = q.sql ++ gap ++ m.inlined d values ∧
      ((p.mention m.name).add (m.piece d)).Alike (q.put m.depth (m.inlined d values)) m.depth := by
  refine ⟨m.gap d p.lineStart, sql_add_piece p m, ?_, ?_⟩
  · rw [sql_put]
    rcases alike with same | outside
    · rw [← same, gap_of_bound bound steady]
    · rw [gap_of_outside outside, outside, margin, ite_self]
  · rw [Alike, or_iff_not_imp_right]
    intro inside
    have same := alike.resolve_right inside
    rw [lineStart_add_piece, lineStart_put, ← same]
    exact lineStart_of_bound bound inside steady

/-- A parameter on two pages, where it may have a value on the second one. -/
theorem exists_add (p q : Page) (m : Mention) (alike : p.Alike q m.depth)
    (steady : Occurrence.IsSteady d values ⟨m.name, m.depth, p.lineStart⟩) :
    ∃ gap, ((p.mention m.name).add (m.piece d)).sql = p.sql ++ gap ++ m.printed d ∧
      (q.addAll (Doc.indent^[m.depth] (d.inlinedDoc values m.name m.negated))).sql =
        q.sql ++ gap ++ m.inlined d values ∧
      ((p.mention m.name).add (m.piece d)).Alike
        (q.addAll (Doc.indent^[m.depth] (d.inlinedDoc values m.name m.negated))) m.depth := by
  cases bound : values.lookup m.name with
  | none =>
      have document : Doc.indent^[m.depth] (d.inlinedDoc values m.name m.negated) =
          [⟨m.depth, .parameter m.name⟩, m.piece d] := by
        simp [Dialect.inlinedDoc, bound, Dialect.mentioned, Doc.iterate_indent, Doc.parameter,
          Doc.text, Mention.piece]
      have inlined : m.inlined d values = m.printed d := by rw [Mention.inlined, bound]
      rw [document, inlined]
      exact exists_add_of_unbound p q m alike
  | some v =>
      have document : q.addAll (Doc.indent^[m.depth] (d.inlinedDoc values m.name m.negated)) =
          q.put m.depth (m.inlined d values) := by
        rw [Dialect.inlinedDoc, Mention.inlined, bound]
        exact q.addAll_encloseIf_verbatim m.depth _ (d.literal v)
      rw [document]
      exact exists_add_of_bound p q m bound alike steady

end Mention

/-! ## Documents on two pages -/

open Page in
/-- Two pages that go on with a document and with the one that has values in the place of
parameters. -/
theorem Doc.Replaces.exists_substitutes {d : Dialect} {values : Bindings} {i j : Nat}
    {ms : List Mention} {a b : Doc} (h : Replaces d (d.inlinedDoc values) i j ms a b) (p q : Page)
    (alike : p.Alike q i) (steady : ∀ o ∈ a.occurrences p, o.IsSteady d values) :
    ∃ s t, (p.addAll a).sql = p.sql ++ s ∧ (q.addAll b).sql = q.sql ++ t ∧
      Substitutes (ms.map (Mention.printed d)) (ms.map (Mention.inlined d values)) s t := by
  induction h generalizing p q with
  | nil => exact ⟨"", "", String.append_empty.symm, String.append_empty.symm, .nil ""⟩
  | @piece i j ms a b content other _ ih =>
      obtain ⟨text, onP, onQ, alike⟩ := exists_add p q ⟨i, content⟩ alike
      have later : ∀ o ∈ a.occurrences (p.add ⟨i, content⟩), o.IsSteady d values :=
        fun o mem => steady o (List.mem_append_right _ mem)
      obtain ⟨s, t, sqlP, sqlQ, substitutes⟩ := ih _ _ alike later
      refine ⟨text ++ s, text ++ t, ?_, ?_, substitutes.append_left text⟩
      · rw [addAll_cons, sqlP, onP, String.append_assoc]
      · rw [addAll_cons, sqlQ, onQ, String.append_assoc]
  | @line i j k n ms a b _ ih =>
      -- A line break makes any two pages alike, whatever is on them.
      have later : ∀ o ∈ a.occurrences p.newline, o.IsSteady d values :=
        fun o mem => steady o (List.mem_append_right _ mem)
      obtain ⟨s, t, sqlP, sqlQ, substitutes⟩ := ih p.newline q.newline (.inl rfl) later
      refine ⟨"\n" ++ s, "\n" ++ t, ?_, ?_, substitutes.append_left "\n"⟩
      · rw [addAll_cons, ← String.append_assoc, ← p.sql_add_line]
        exact sqlP
      · rw [addAll_cons, ← String.append_assoc, ← q.sql_add_line]
        exact sqlQ
  | @mention i j ms a b name negated _ ih =>
      have first : (⟨name, i, p.lineStart⟩ : Occurrence).IsSteady d values :=
        steady _ (List.mem_append_left _ List.mem_cons_self)
      have later : ∀ o ∈ a.occurrences ((p.mention name).add ⟨i, .text (d.placeholder name)⟩),
          o.IsSteady d values :=
        fun o mem => steady o (List.mem_append_right _ (List.mem_append_right _ mem))
      obtain ⟨gap, onP, onQ, alike⟩ := Mention.exists_add p q ⟨name, negated, i⟩ alike first
      obtain ⟨s, t, sqlP, sqlQ, substitutes⟩ := ih _ _ alike later
      refine ⟨gap ++ Mention.printed d ⟨name, negated, i⟩ ++ s,
        gap ++ Mention.inlined d values ⟨name, negated, i⟩ ++ t, ?_, ?_, .cons gap _ _ substitutes⟩
      · refine sqlP.trans ?_
        simp only [onP, String.append_assoc]
      · rw [addAll_append]
        refine sqlQ.trans ?_
        simp only [onQ, String.append_assoc]

/-! ## Names that are left -/

/-- Names that are taken out before or after repetitions are removed. -/
theorem eraseDups_filter (keep : String → Bool) (names : List String) :
    (names.filter keep).eraseDups = names.eraseDups.filter keep := by
  match names with
  | [] => rfl
  | name :: rest =>
      have ih := eraseDups_filter keep (rest.filter fun n => !n == name)
      cases kept : keep name with
      | true =>
          rw [List.filter_cons_of_pos kept, List.eraseDups_cons, List.eraseDups_cons,
            List.filter_cons_of_pos kept, ← ih, List.filter_comm]
      | false =>
          have without : rest.filter keep = (rest.filter fun n => !n == name).filter keep := by
            rw [List.filter_filter]
            refine List.filter_congr fun n _ => ?_
            by_cases same : n = name <;> simp [same, kept]
          have dropped : ¬ keep name = true := Bool.eq_false_iff.mp kept
          rw [List.filter_cons_of_neg dropped, List.eraseDups_cons, List.filter_cons_of_neg dropped,
            ← ih, without]
termination_by names.length
decreasing_by exact Nat.lt_succ_of_le (List.length_filter_le _ _)

namespace Doc

theorem names_append (a b : Doc) : names (a ++ b) = names a ++ names b := List.filterMap_append

theorem names_iterate_indent (depth : Nat) (a : Doc) : names (indent^[depth] a) = names a := by
  rw [iterate_indent, names, List.filterMap_map]
  rfl

theorem names_encloseIf (needed : Bool) (a : Doc) : names (encloseIf needed a) = names a := by
  cases needed with
  | false => rfl
  | true =>
      rw [encloseIf, if_pos rfl, enclose, names_append, names_append]
      exact List.append_nil _

/-- The names that the second document mentions. -/
theorem Replaces.names_of_put {d : Dialect} {put : String → Bool → Doc} {i j : Nat}
    {ms : List Mention} {a b : Doc} {keep : String → Bool}
    (left : ∀ name negated, (put name negated).names = [name].filter keep)
    (h : Replaces d put i j ms a b) : b.names = (ms.map Mention.name).filter keep := by
  induction h with
  | nil => rfl
  | @piece i j ms a b content other _ ih =>
      exact (List.filterMap_cons_none (Piece.parameter?_eq_none other)).trans ih
  | line _ ih => exact ih
  | mention name negated _ ih =>
      rw [names_append, names_iterate_indent, left, ih, ← List.filter_append]
      rfl

end Doc

/-- A parameter without a value is the only one that is still mentioned. -/
theorem Dialect.names_inlinedDoc (d : Dialect) (values : Bindings) (name : String)
    (negated : Bool) : (d.inlinedDoc values name negated).names =
      [name].filter fun name => (values.lookup name).isNone := by
  unfold inlinedDoc
  cases bound : values.lookup name with
  | none => simp [mentioned, Doc.names, Doc.parameter, Doc.text, Piece.parameter?, bound]
  | some v =>
      rw [Doc.names_encloseIf, List.filter_cons_of_neg (by rw [bound]; exact Bool.false_ne_true)]
      rfl

/-! ## The whole tree -/

namespace Expr

theorem precedence_head (e : Expr) : e.head.precedence = e.precedence := by
  cases e <;> rfl

theorem isBinary_head (e : Expr) (op : BinaryOp) : e.head.isBinary op = e.isBinary op := by
  cases e <;> rfl

theorem startsWithMinus_head (d : Dialect) (e : Expr) :
    e.head.startsWithMinus d = e.startsWithMinus d := by
  cases e <;> rfl

/-- A tree stands for itself after values have been put in the place of parameters. -/
theorem standsFor_after_inline (d : Dialect) (b : Builder) (values : Bindings) {e : Expr}
    (flags : e.AllFlagsMatch) :
    StandsFor d (d.inlinedDoc values) e (e.after (.inline b values)) := by
  induction e using induction_children with
  | node e ih =>
      cases replaced : (Pass.inline b values).replace e with
      | some result =>
          cases e with
          | parameter name t nullable =>
              -- The constant is an atom as the parameter is, and its sign belongs to what is put.
              rw [after_of_replace replaced]
              obtain ⟨v, bound, rfl⟩ := Option.map_eq_some_iff.mp replaced
              have literal : d.inlinedDoc values name false = (b.inlined v t).doc d := by
                rw [Dialect.inlinedDoc, bound]
                rfl
              have mention : Doc.Replaces d (d.inlinedDoc values) 0 0 [{ name }] _ _ :=
                .parameter name false
              rw [literal] at mention
              refine ⟨?_, rfl, fun _ => rfl, fun other => (nomatch other), ?_⟩
              · rw [mentions_parameter]
                exact mention
              · intro name' t' nullable' same
                obtain ⟨rfl, rfl, rfl⟩ := Expr.parameter.inj same
                rw [Dialect.inlinedDoc, bound]
                rfl
          | _ => cases replaced
      | none =>
          obtain ⟨e', rebuilt, after⟩ :=
            exists_after (Pass.keepsSelects_inline b values) flags replaced
          have after : e.after (.inline b values) = e' := after
          have unbound (name : String) (t : Typing) (nullable : Bool) (negated : Bool)
              (parameter : e = .parameter name t nullable) :
              d.inlinedDoc values name negated = d.mentioned name negated := by
            subst parameter
            rw [Dialect.inlinedDoc, Option.map_eq_none_iff.mp replaced]
          have document := replaces_document (fun c mem => ih c mem (flags.child mem))
            fun name t nullable => unbound name t nullable false
          have heads : e'.head = e.head := head_of_withSlots rebuilt (Slots.places_map _ _)
          rw [after]
          refine ⟨?_, ?_, fun op => ?_, fun _ => ?_, ?_⟩
          · rwa [doc_eq_document d e', node_of_withSlots rebuilt]
          · rw [← e.precedence_head, ← heads, e'.precedence_head]
          · rw [← e.isBinary_head, ← heads, e'.isBinary_head]
          · rw [← e.startsWithMinus_head, ← heads, e'.startsWithMinus_head]
          · rintro name t nullable rfl
            obtain rfl := Except.ok.inj rebuilt
            exact (unbound name t nullable true rfl).symm

/-- The printed query after inlining is the printed query with literals in the place of the
placeholders of the parameters that have a value.  Only these are left out of the list of
parameters. -/
theorem print_after_inline (d : Dialect) (b : Builder) (values : Bindings) {e : Expr}
    (flags : e.AllFlagsMatch) :
    ∃ r, e.revise (.inline b values) = .ok r ∧
      ((r.of e).print d).parameters =
        (e.print d).parameters.filter (fun name => (values.lookup name).isNone) ∧
      ((∀ o ∈ (e.doc d).occurrences {}, o.IsSteady d values) →
        Substitutes (e.mentions.map (Mention.printed d)) (e.mentions.map (Mention.inlined d values))
          (e.print d).sql ((r.of e).print d).sql) := by
  obtain ⟨r, revised, -⟩ := revise_ok (Pass.keepsSelects_inline b values) flags
  have document := (standsFor_after_inline d b values flags).doc
  rw [after, outcome_of_revise revised] at document
  refine ⟨r, revised, ?parameters, fun steady => ?sql⟩
  case parameters =>
    have left := document.names_of_put (d.names_inlinedDoc values)
    rw [print, print, Doc.parameters_render, Doc.parameters_render, left, ← document.names,
      eraseDups_filter]
  case sql =>
    obtain ⟨s, t, before, after, substitutes⟩ :=
      document.exists_substitutes {} {} (.inl rfl) steady
    have before : (e.print d).sql = "" ++ s := before
    have after : ((r.of e).print d).sql = "" ++ t := after
    rw [before, after]
    exact substitutes.append_left ""

/-! ## Two unions -/

/-- The rows of `SELECT … FROM "Blogs" AS "b"`, with one item in the list. -/
def blogs (item : Expr) (columnAlias : Option String) : Select Expr :=
  { projection := [.projection item columnAlias], tables := [.table ⟨"Blogs", none⟩ "b"] }

/-- The rows of two such lists, of which the item of the first has a name. -/
def unionOf (first second : Expr) : Expr :=
  .setOperation .union "u" (blogs first (some "n")) (blogs second none) true

/-- A parameter of integers. -/
def number (name : String) : Expr := .parameter name ⟨.int64, none⟩ false

theorem AllFlagsMatch.unionOf {first second : Expr} (left : first.AllFlagsMatch)
    (right : second.AllFlagsMatch) : (unionOf first second).AllFlagsMatch := by
  have rows {item : Expr} {columnAlias : Option String} (h : item.AllFlagsMatch) :
      (Expr.select (blogs item columnAlias)).AllFlagsMatch := by
    refine .of_children trivial fun c mem => ?_
    rcases List.mem_pair.mp mem with rfl | rfl
    · refine .of_children trivial fun c mem => ?_
      obtain rfl := List.mem_singleton.mp mem
      exact h
    · exact .of_leaf rfl trivial
  refine .of_children trivial fun c mem => ?_
  rcases List.mem_pair.mp mem with rfl | rfl
  · exact rows left
  · exact rows right

theorem mentions_unionOf (first second : Expr) :
    (unionOf first second).mentions = (first.mentions ++ second.mentions).map Mention.inside := by
  have rows (item : Expr) (columnAlias : Option String) :
      (Expr.select (blogs item columnAlias)).mentions = item.mentions := by
    have table : (Expr.table ⟨"Blogs", none⟩ "b").mentions = [] := mentions_leaf rfl rfl
    have projection : (Expr.projection item columnAlias).mentions = item.mentions :=
      mentions_of_child rfl rfl rfl
    have pair := mentions_of_pair (e := .select (blogs item columnAlias)) rfl rfl rfl
    rw [pair, projection, table, List.append_nil]
  rw [unionOf, mentions_setOperation, rows, rows]

/-- The union of `SELECT -@lowest AS "n" …` and `SELECT @highest …`. -/
def bounds : Expr :=
  unionOf (.unary .negate (number "lowest") ⟨.int64, none⟩) (number "highest")

/-- A literal with a sign of its own is put in the place of the parameter under the negation. -/
theorem print_after_inline_bounds :
    bounds.AllFlagsMatch ∧
      (∀ o ∈ (bounds.doc .ansi).occurrences {}, o.IsSteady .ansi [("lowest", .integer (-5))]) ∧
      ∃ r, bounds.revise (.inline ⟨fun _ => none⟩ [("lowest", .integer (-5))]) = .ok r ∧
        (bounds.print .ansi).parameters = ["lowest", "highest"] ∧
        ((r.of bounds).print .ansi).parameters = ["highest"] ∧
        Substitutes ["@lowest", "@highest"] ["(-5)", "@highest"] (bounds.print .ansi).sql
          ((r.of bounds).print .ansi).sql := by
  have flags : bounds.AllFlagsMatch := by
    refine .unionOf (.of_children trivial fun c mem => ?_) (.of_leaf rfl trivial)
    obtain rfl := List.mem_singleton.mp mem
    exact .of_leaf rfl trivial
  have steady : ∀ o ∈ (bounds.doc .ansi).occurrences {},
      o.IsSteady .ansi [("lowest", .integer (-5))] := by
    have places : (bounds.doc .ansi).occurrences {} =
        [⟨"lowest", 1, false⟩, ⟨"highest", 1, false⟩] := by decide +kernel
    rw [places]
    intro o mem v bound
    rcases List.mem_pair.mp mem with rfl | rfl
    · exact .inr ⟨by decide +kernel, fun started => nomatch started⟩
    · cases bound
  obtain ⟨r, revised, left, substitutes⟩ :=
    print_after_inline .ansi ⟨fun _ => none⟩ [("lowest", .integer (-5))] flags
  have parameters : (bounds.print .ansi).parameters = ["lowest", "highest"] := by decide +kernel
  have mentions : bounds.mentions = [⟨"lowest", true, 1⟩, ⟨"highest", false, 1⟩] := by
    simp [bounds, mentions_unionOf, number, mentions_negated, mentions_parameter, Mention.inside]
  refine ⟨flags, steady, r, revised, parameters, ?_, ?_⟩
  · rw [left, parameters]
    decide
  · have before : bounds.mentions.map (Mention.printed .ansi) = ["@lowest", "@highest"] := by
      rw [mentions]
      decide +kernel
    have after : bounds.mentions.map (Mention.inlined .ansi [("lowest", .integer (-5))]) =
        ["(-5)", "@highest"] := by
      rw [mentions]
      decide +kernel
    rw [← before, ← after]
    exact substitutes steady

/-- The union of `SELECT @… AS "n" …`, where the name of the parameter ends in a line break, and of
`SELECT @last …`. -/
def brokenName : Expr := unionOf (number "first\n") (number "last")

/-- The line break of the placeholder starts a line, whose margin stands in front of the alias.  The
literal starts none, and the margin is not printed. -/
theorem not_substitutes_brokenName :
    brokenName.AllFlagsMatch ∧
      ∃ r, brokenName.revise (.inline ⟨fun _ => none⟩ [("first\n", .integer 5)]) = .ok r ∧
        (brokenName.print .ansi).sql =
          "(\n    SELECT @first\n     AS \"n\"\n    FROM \"Blogs\" AS \"b\"\n    UNION\n" ++
            "    SELECT @last\n    FROM \"Blogs\" AS \"b\"\n) AS u" ∧
        ((r.of brokenName).print .ansi).sql =
          "(\n    SELECT 5 AS \"n\"\n    FROM \"Blogs\" AS \"b\"\n    UNION\n" ++
            "    SELECT @last\n    FROM \"Blogs\" AS \"b\"\n) AS u" ∧
        ¬ Substitutes (brokenName.mentions.map (Mention.printed .ansi))
          (brokenName.mentions.map (Mention.inlined .ansi [("first\n", .integer 5)]))
          (brokenName.print .ansi).sql ((r.of brokenName).print .ansi).sql := by
  have mentions : brokenName.mentions = [⟨"first\n", false, 1⟩, ⟨"last", false, 1⟩] := by
    simp [brokenName, mentions_unionOf, number, mentions_parameter, Mention.inside]
  have sql : (brokenName.print .ansi).sql =
      "(\n    SELECT @first\n     AS \"n\"\n    FROM \"Blogs\" AS \"b\"\n    UNION\n" ++
        "    SELECT @last\n    FROM \"Blogs\" AS \"b\"\n) AS u" := by decide +kernel
  have sql' :
      ((brokenName.after (.inline ⟨fun _ => none⟩ [("first\n", .integer 5)])).print .ansi).sql =
      "(\n    SELECT 5 AS \"n\"\n    FROM \"Blogs\" AS \"b\"\n    UNION\n" ++
        "    SELECT @last\n    FROM \"Blogs\" AS \"b\"\n) AS u" := by decide +kernel
  refine ⟨.unionOf (.of_leaf rfl trivial) (.of_leaf rfl trivial), _, rfl, sql, sql',
    fun substitutes => ?_⟩
  -- The second text lacks the margin as well, so it is shorter than the texts put there make it.
  have lengths := substitutes.length_add
  rw [mentions] at lengths
  revert lengths
  decide +kernel

end Expr

end SqlGen
