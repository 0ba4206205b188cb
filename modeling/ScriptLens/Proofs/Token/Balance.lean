import Mathlib.Data.List.Infix
import ScriptLens.Token.Cursor

/-! # Balanced brackets
A span is cut out by the number of brackets that are open after each token. Here the same span is
told by counting the brackets of its first parts: it is the shortest first part in which one more
bracket closes than opens, a balanced part and the bracket that closes behind it.
Main definitions:
* `Bracket.Balanced`: every bracket that closes was opened before, and all are closed.
* `Bracket.StaysOpen`: after each of some tokens a bracket is open.
* `Bracket.Overcloses`: one more bracket closes than opens.
* `Bracket.Pairs`: the places of a bracket and of the one that closes it.
* `Bracket.ClosesFirst`: the shortest part in which one more bracket closes than opens.
* `Cursor.TakesShortest`: what a cursor takes and where it stands afterwards.
Main statements:
* `Bracket.span_of_counts`, `Bracket.exists_close_of_closed`: closed spans told by counts.
* `Bracket.staysOpen_of_not_closed`: where a span never closes, a bracket is open all along.
* `Bracket.closed_iff_overcloses`: spans close where the counts say so.
* `Bracket.enclosed?_of_balanced`: balanced tokens are taken up to the bracket behind them.
* `Bracket.Balanced.exists_pairs`, `Bracket.Pairs.unique`: each bracket of balanced tokens is closed
  by exactly one.
* `Bracket.closesFirst_inside`: a closed span is the shortest part that closes.
* `Cursor.takeSpan_shortest`: what a cursor takes. -/

namespace ScriptLens

namespace Bracket

variable {bracket : Bracket} {depth : Nat} {tokens : List Token}

/-! ## Counts -/

/-- Every bracket that closes was opened before, and all that are opened are closed. -/
structure Balanced (bracket : Bracket) (tokens : List Token) : Prop where
  /-- In every first part at least as many brackets open as close. -/
  parts : ∀ start, start <+: tokens →
    start.countP (·.kind = bracket.closing) ≤ start.countP (·.kind = bracket.opening)
  /-- In the whole as many brackets open as close. -/
  whole : tokens.countP (·.kind = bracket.closing) = tokens.countP (·.kind = bracket.opening)

instance (bracket : Bracket) (tokens : List Token) : Decidable (bracket.Balanced tokens) :=
  decidable_of_iff
    ((∀ start ∈ tokens.inits,
        start.countP (·.kind = bracket.closing) ≤ start.countP (·.kind = bracket.opening)) ∧
      tokens.countP (·.kind = bracket.closing) = tokens.countP (·.kind = bracket.opening))
    ⟨fun ⟨parts, whole⟩ => ⟨fun start first => parts start ((List.mem_inits _ _).mpr first), whole⟩,
      fun ⟨parts, whole⟩ => ⟨fun start first => parts start ((List.mem_inits _ _).mp first), whole⟩⟩

/-- Where `depth` brackets are open before some tokens, one is open behind each first part. -/
def StaysOpen (bracket : Bracket) (depth : Nat) (tokens : List Token) : Prop :=
  ∀ start, start <+: tokens →
    start.countP (·.kind = bracket.closing) < start.countP (·.kind = bracket.opening) + depth

/-- In some tokens one more bracket closes than opens. -/
def Overcloses (bracket : Bracket) (tokens : List Token) : Prop :=
  tokens.countP (·.kind = bracket.closing) = tokens.countP (·.kind = bracket.opening) + 1

instance (bracket : Bracket) (tokens : List Token) : Decidable (bracket.Overcloses tokens) :=
  inferInstanceAs (Decidable (_ = _))

/-- No tokens are balanced. -/
theorem balanced_nil (bracket : Bracket) : bracket.Balanced [] where
  parts start first := by rw [List.prefix_nil.mp first, List.countP_nil, List.countP_nil]
  whole := rfl

/-- Tokens are balanced if a bracket open before them is the only one that is open behind them. -/
theorem balanced_iff_staysOpen :
    bracket.Balanced tokens ↔ bracket.StaysOpen 1 tokens ∧
      tokens.countP (·.kind = bracket.closing) = tokens.countP (·.kind = bracket.opening) := by
  constructor
  · intro balanced
    exact ⟨fun start first => Nat.lt_succ_of_le (balanced.parts start first), balanced.whole⟩
  · rintro ⟨stays, whole⟩
    exact ⟨fun start first => Nat.le_of_lt_succ (stays start first), whole⟩

/-- What one more token does to the depth it does to the counts. -/
theorem countP_cons_add_depthAfter (distinct : bracket.opening ≠ bracket.closing)
    (positive : depth ≠ 0) (token : Token) (tokens : List Token) :
    (token :: tokens).countP (·.kind = bracket.closing) +
        (tokens.countP (·.kind = bracket.opening) + bracket.depthAfter token.kind depth) =
      tokens.countP (·.kind = bracket.closing) +
        ((token :: tokens).countP (·.kind = bracket.opening) + depth) := by
  by_cases opens : token.kind = bracket.opening
  · simp [depthAfter, opens, distinct]
    omega
  · by_cases closes : token.kind = bracket.closing
    · simp [depthAfter, closes, distinct.symm]
      omega
    · simp [depthAfter, opens, closes]

/-- Before tokens with an open bracket all along, one is open already. -/
theorem StaysOpen.positive (stays : bracket.StaysOpen depth tokens) : depth ≠ 0 := by
  have before := stays [] List.nil_prefix
  simp only [List.countP_nil] at before
  omega

/-- A bracket is open all along if one is open before the first token and all along behind it. -/
theorem staysOpen_cons_iff (distinct : bracket.opening ≠ bracket.closing) (positive : depth ≠ 0)
    (token : Token) (tokens : List Token) :
    bracket.StaysOpen depth (token :: tokens) ↔
      bracket.StaysOpen (bracket.depthAfter token.kind depth) tokens := by
  have step (start : List Token) := countP_cons_add_depthAfter distinct positive token start
  constructor
  · intro stays start first
    have counts := stays (token :: start) ((List.prefix_cons_inj token).mpr first)
    have changed := step start
    omega
  · intro stays start first
    rcases List.prefix_cons_iff.mp first with rfl | ⟨rest, rfl, restFirst⟩
    · simp only [List.countP_nil]
      omega
    · have counts := stays rest restFirst
      have changed := step rest
      omega

/-! ## Spans -/

/-- Where all of `depth` open brackets but one close in some tokens, the last one closes with the
bracket behind them. -/
theorem span_of_counts (distinct : bracket.opening ≠ bracket.closing) {close : Token}
    (closes : close.kind = bracket.closing) (later : List Token)
    (stays : bracket.StaysOpen depth tokens)
    (whole : tokens.countP (·.kind = bracket.closing) + 1 =
      tokens.countP (·.kind = bracket.opening) + depth) :
    bracket.span depth (tokens ++ close :: later) =
      { inside := tokens ++ [close], rest := later, closed := true } := by
  induction tokens generalizing depth with
  | nil =>
    have last : depth = 1 := by simpa using whole.symm
    cases later <;> simp [span, depthAfter, last, closes, distinct.symm]
  | cons token tokens ih =>
    have positive := stays.positive
    -- A bracket is open before the token, so the span takes it and goes on with the new depth.
    have next : bracket.span (bracket.depthAfter token.kind depth) (tokens ++ close :: later) =
        { inside := tokens ++ [close], rest := later, closed := true } := by
      refine ih ((staysOpen_cons_iff distinct positive token tokens).mp stays) ?_
      have changed := countP_cons_add_depthAfter distinct positive token tokens
      omega
    simp [span, positive, next]

/-- The token after which no bracket is open any more closes the last one. -/
theorem closes_of_depthAfter_eq_zero {kind : Token.Kind} (positive : depth ≠ 0)
    (ended : bracket.depthAfter kind depth = 0) : kind = bracket.closing ∧ depth = 1 := by
  unfold depthAfter at ended
  split at ended
  · omega
  · split at ended
    · next closes => exact ⟨closes, by omega⟩
    · omega

/-- A closed span ends with a bracket that closes. Before it all of the `depth` open brackets but
one have closed, and one was open all along. -/
theorem exists_close_of_closed (distinct : bracket.opening ≠ bracket.closing) (positive : depth ≠ 0)
    (closed : (bracket.span depth tokens).closed) :
    ∃ before close, (bracket.span depth tokens).inside = before ++ [close] ∧
      close.kind = bracket.closing ∧ bracket.StaysOpen depth before ∧
      before.countP (·.kind = bracket.closing) + 1 =
        before.countP (·.kind = bracket.opening) + depth := by
  induction tokens generalizing depth with
  | nil => simp [span, positive] at closed
  | cons token tokens ih =>
    simp only [span, if_neg positive] at closed ⊢
    by_cases ended : bracket.depthAfter token.kind depth = 0
    · -- The span is over with this token, and no token comes before it.
      obtain ⟨closes, rfl⟩ := closes_of_depthAfter_eq_zero positive ended
      refine ⟨[], token, ?_, closes, ?_, rfl⟩
      · rw [ended]
        cases tokens <;> rfl
      · intro start first
        simp [List.prefix_nil.mp first]
    · obtain ⟨before, close, inside, closes, stays, whole⟩ := ih ended closed
      refine ⟨token :: before, close, by rw [inside, List.cons_append], closes,
        (staysOpen_cons_iff distinct positive token before).mpr stays, ?_⟩
      have changed := countP_cons_add_depthAfter distinct positive token before
      omega

/-- Where a span never closes, a bracket is open all along. -/
theorem staysOpen_of_not_closed (distinct : bracket.opening ≠ bracket.closing)
    (notClosed : ¬ (bracket.span depth tokens).closed) : bracket.StaysOpen depth tokens := by
  induction tokens generalizing depth with
  | nil =>
    have positive : depth ≠ 0 := by simpa [span] using notClosed
    intro start first
    rw [List.prefix_nil.mp first, List.countP_nil, List.countP_nil]
    omega
  | cons token tokens ih =>
    by_cases ended : depth = 0
    · simp [span, ended] at notClosed
    · simp only [span, if_neg ended] at notClosed
      exact (staysOpen_cons_iff distinct ended token tokens).mpr (ih notClosed)

/-- **Balanced tokens** behind an opening bracket are taken up to the bracket behind them. -/
theorem enclosed?_of_balanced (distinct : bracket.opening ≠ bracket.closing)
    (balanced : bracket.Balanced tokens) {opening close : Token}
    (opens : opening.kind = bracket.opening) (closes : close.kind = bracket.closing)
    (later : List Token) :
    bracket.enclosed? (opening :: (tokens ++ close :: later)) =
      some { inside := tokens ++ [close], rest := later, closed := true } := by
  obtain ⟨stays, whole⟩ := balanced_iff_staysOpen.mp balanced
  rw [enclosed?, if_pos opens, Option.some.injEq]
  exact span_of_counts distinct closes later stays (by rw [whole])

/-- **A closed span** is a balanced part and the bracket that closes behind it. -/
theorem exists_balanced_of_closed (distinct : bracket.opening ≠ bracket.closing)
    (closed : (bracket.span 1 tokens).closed) :
    ∃ before close, (bracket.span 1 tokens).inside = before ++ [close] ∧
      close.kind = bracket.closing ∧ bracket.Balanced before := by
  obtain ⟨before, close, inside, closes, stays, whole⟩ :=
    exists_close_of_closed distinct Nat.one_ne_zero closed
  exact ⟨before, close, inside, closes,
    balanced_iff_staysOpen.mpr ⟨stays, Nat.add_right_cancel whole⟩⟩

/-! ## Shortest parts -/

/-- No first part of balanced tokens closes more brackets than it opens. -/
theorem Balanced.not_overcloses {start : List Token} (balanced : bracket.Balanced tokens)
    (first : start <+: tokens) : ¬ bracket.Overcloses start := by
  intro overcloses
  have counts := balanced.parts start first
  unfold Overcloses at overcloses
  omega

/-- One more bracket closes than opens in a balanced part and the bracket behind it. -/
theorem Balanced.overcloses_append (distinct : bracket.opening ≠ bracket.closing) {close : Token}
    (balanced : bracket.Balanced tokens) (closes : close.kind = bracket.closing) :
    bracket.Overcloses (tokens ++ [close]) := by
  simp [Overcloses, balanced.whole, closes, distinct.symm]

/-- Behind a balanced part no first part closes more brackets than it opens before it comes to the
next token. -/
theorem Balanced.length_lt_of_overcloses {start later : List Token}
    (balanced : bracket.Balanced tokens) (first : start <+: tokens ++ later)
    (overcloses : bracket.Overcloses start) : tokens.length < start.length := by
  refine Nat.lt_of_not_le fun short => ?_
  have within := List.prefix_of_prefix_length_le first (List.prefix_append tokens later) short
  exact balanced.not_overcloses within overcloses

/-- **A span is closed** if and only if one more bracket closes than opens in some first part of the
tokens. -/
theorem closed_iff_overcloses (distinct : bracket.opening ≠ bracket.closing) :
    (bracket.span 1 tokens).closed ↔ ∃ start, start <+: tokens ∧ bracket.Overcloses start := by
  constructor
  · intro closed
    obtain ⟨before, close, inside, closes, balanced⟩ := exists_balanced_of_closed distinct closed
    refine ⟨(bracket.span 1 tokens).inside, ⟨_, inside_append_rest bracket 1 tokens⟩, ?_⟩
    rw [inside]
    exact balanced.overcloses_append distinct closes
  · rintro ⟨start, first, overcloses⟩
    refine Classical.byContradiction fun notClosed => ?_
    have counts := staysOpen_of_not_closed distinct notClosed start first
    unfold Overcloses at overcloses
    omega

/-! ## Pairs -/

/-- The bracket that opens at the place `first` is closed by the one at `last`: what stands between
them is balanced. -/
structure Pairs (bracket : Bracket) (tokens : List Token) (first last : Nat) : Prop where
  /-- The one that opens comes first. -/
  ordered : first < last
  /-- A bracket opens at the first place. -/
  opens : tokens[first]?.map Token.kind = some bracket.opening
  /-- A bracket closes at the last place. -/
  closes : tokens[last]?.map Token.kind = some bracket.closing
  /-- All that open between them close between them, and the other way round. -/
  between : bracket.Balanced (tokens.extract (first + 1) last)

/-- Balanced tokens between a bracket that opens and one that closes make a pair of these. -/
theorem pairs_of_balanced (before after : List Token) {opening close : Token}
    (opens : opening.kind = bracket.opening) (balanced : bracket.Balanced tokens)
    (closes : close.kind = bracket.closing) :
    bracket.Pairs (before ++ opening :: (tokens ++ close :: after)) before.length
      (before.length + 1 + tokens.length) where
  ordered := by omega
  opens := by simp [opens]
  closes := by
    have place : before.length + 1 + tokens.length = before.length + (tokens.length + 1) := by omega
    simp [place, closes]
  between := by simpa [List.extract] using balanced

/-- A bracket is not closed a second time. -/
theorem Pairs.not_lt (distinct : bracket.opening ≠ bracket.closing) {first last later : Nat}
    (pair : bracket.Pairs tokens first last) (other : bracket.Pairs tokens first later) :
    ¬ last < later := by
  intro behind
  obtain ⟨close, found, closes⟩ := Option.map_eq_some_iff.mp pair.closes
  have ordered := pair.ordered
  -- With the bracket that closes it, what stands in the pair would be a first part of what stands
  -- in the other pair, which is balanced.
  have taken : tokens.extract (first + 1) (last + 1) =
      tokens.extract (first + 1) last ++ [close] := by
    have place : (tokens.drop (first + 1))[last - (first + 1)]? = some close := by
      rw [List.getElem?_drop, ← found]
      congr 1
      omega
    have length : last + 1 - (first + 1) = last - (first + 1) + 1 := by omega
    rw [List.extract, List.extract, length, List.take_add_one, place]
    rfl
  have within : tokens.extract (first + 1) (last + 1) <+: tokens.extract (first + 1) later :=
    List.take_prefix_take_left (by omega)
  rw [taken] at within
  exact other.between.not_overcloses within (pair.between.overcloses_append distinct closes)

/-- **A bracket is closed by one other** at most. -/
theorem Pairs.unique (distinct : bracket.opening ≠ bracket.closing) {first last later : Nat}
    (pair : bracket.Pairs tokens first last) (other : bracket.Pairs tokens first later) :
    later = last :=
  Nat.le_antisymm (Nat.le_of_not_lt (pair.not_lt distinct other))
    (Nat.le_of_not_lt (other.not_lt distinct pair))

/-- The span behind a bracket that opens in balanced tokens is closed. -/
theorem Balanced.closed_behind (distinct : bracket.opening ≠ bracket.closing)
    {before after : List Token} {opening : Token} (opens : opening.kind = bracket.opening)
    (balanced : bracket.Balanced (before ++ opening :: after)) : (bracket.span 1 after).closed := by
  refine Classical.byContradiction fun notClosed => ?_
  -- Before the bracket no more close than open, so that behind it one more closes than opens.
  have behind := staysOpen_of_not_closed distinct notClosed after (List.prefix_refl after)
  have parts := balanced.parts before (List.prefix_append before _)
  have whole := balanced.whole
  simp only [List.countP_append, List.countP_cons, opens, distinct, decide_true, decide_false,
    Bool.false_eq_true, ↓reduceIte] at whole
  omega

/-- **Every bracket that opens in balanced tokens** is closed in them, whatever follows. -/
theorem Balanced.exists_pairs (distinct : bracket.opening ≠ bracket.closing)
    (balanced : bracket.Balanced tokens) (later : List Token) {first : Nat}
    (opens : tokens[first]?.map Token.kind = some bracket.opening) :
    ∃ last, last < tokens.length ∧ bracket.Pairs (tokens ++ later) first last := by
  obtain ⟨opening, found, isOpening⟩ := Option.map_eq_some_iff.mp opens
  obtain ⟨before, behind, rfl, rfl⟩ :
      ∃ before behind, tokens = before ++ opening :: behind ∧ before.length = first := by
    obtain ⟨bound, rfl⟩ := List.getElem?_eq_some_iff.mp found
    refine ⟨tokens.take first, tokens.drop (first + 1), ?_, List.length_take_of_le bound.le⟩
    rw [List.getElem_cons_drop, List.take_append_drop]
  -- The bracket is closed where the span behind it ends.
  have closed := balanced.closed_behind distinct isOpening
  obtain ⟨between, close, inside, closes, balancedBetween⟩ :=
    exists_balanced_of_closed distinct closed
  obtain ⟨rest, rfl⟩ : ∃ rest, behind = between ++ close :: rest := by
    refine ⟨(bracket.span 1 behind).rest, ?_⟩
    rw [← List.singleton_append, ← List.append_assoc, ← inside, inside_append_rest]
  refine ⟨before.length + 1 + between.length, ?_, ?_⟩
  · simp only [List.length_append, List.length_cons]
    omega
  · simpa using pairs_of_balanced before (rest ++ later) isOpening balancedBetween closes

/-- A bracket that opens in a balanced part and the bracket that closes behind it is closed within
the balanced part. -/
theorem Balanced.exists_pairs_append (distinct : bracket.opening ≠ bracket.closing) {close : Token}
    (balanced : bracket.Balanced tokens) (closes : close.kind = bracket.closing) {first : Nat}
    (opens : (tokens ++ [close])[first]?.map Token.kind = some bracket.opening) :
    ∃ last, last < tokens.length ∧ bracket.Pairs (tokens ++ [close]) first last := by
  refine balanced.exists_pairs distinct [close] ?_
  by_cases within : first < tokens.length
  · rwa [List.getElem?_append_left within] at opens
  · rw [List.getElem?_append_right (Nat.le_of_not_lt within)] at opens
    obtain ⟨token, found, isOpening⟩ := Option.map_eq_some_iff.mp opens
    have same := List.mem_singleton.mp (List.mem_of_getElem? found)
    exact absurd (isOpening.symm.trans (same ▸ closes)) distinct

/-! ## Shortest closed parts -/

/-- A part at the start of some tokens is the shortest one in which one more bracket closes than
opens. -/
structure ClosesFirst (bracket : Bracket) (tokens part : List Token) : Prop where
  /-- The tokens start with the part. -/
  starts : part <+: tokens
  /-- One more bracket closes than opens in it. -/
  overcloses : bracket.Overcloses part
  /-- No first part of the tokens with that property is shorter. -/
  shortest : ∀ start, start <+: tokens → bracket.Overcloses start → part.length ≤ start.length
  /-- Its last token closes a bracket. -/
  closes : part.getLast?.map Token.kind = some bracket.closing
  /-- In each shorter first part of it at least as many brackets open as close. -/
  opens : ∀ start, start <+: part → start ≠ part →
    start.countP (·.kind = bracket.closing) ≤ start.countP (·.kind = bracket.opening)
  /-- Each bracket that opens in it is closed by exactly one other, before the last token. -/
  pairs : ∀ first, part[first]?.map Token.kind = some bracket.opening →
    ∃ last, last + 1 < part.length ∧ bracket.Pairs part first last ∧
      ∀ other, bracket.Pairs part first other → other = last

/-- A balanced part and the bracket that closes behind it are the shortest part that closes. -/
theorem Balanced.closesFirst (distinct : bracket.opening ≠ bracket.closing) {close : Token}
    (balanced : bracket.Balanced tokens) (closes : close.kind = bracket.closing)
    (later : List Token) : bracket.ClosesFirst (tokens ++ [close] ++ later) (tokens ++ [close]) where
  starts := List.prefix_append _ later
  overcloses := balanced.overcloses_append distinct closes
  shortest := by
    intro start first overcloses
    rw [List.append_assoc] at first
    rw [List.length_append, List.length_singleton]
    exact balanced.length_lt_of_overcloses first overcloses
  closes := by simp [closes]
  opens := by
    intro start first shorter
    exact balanced.parts start ((List.prefix_concat_iff.mp first).resolve_left shorter)
  pairs := by
    intro first opens
    obtain ⟨last, within, pair⟩ := balanced.exists_pairs_append distinct closes opens
    refine ⟨last, ?_, pair, fun other => pair.unique distinct⟩
    rw [List.length_append, List.length_singleton]
    exact Nat.succ_lt_succ within

/-- A closed span is the shortest part that closes. -/
theorem closesFirst_inside (distinct : bracket.opening ≠ bracket.closing)
    (closed : (bracket.span 1 tokens).closed) :
    bracket.ClosesFirst tokens (bracket.span 1 tokens).inside := by
  have whole := inside_append_rest bracket 1 tokens
  obtain ⟨before, close, inside, closes, balanced⟩ := exists_balanced_of_closed distinct closed
  have first := balanced.closesFirst distinct closes (bracket.span 1 tokens).rest
  rwa [← inside, whole] at first

end Bracket

/-! ## Cursors -/

namespace Cursor

variable {bracket : Bracket} {cursor : Cursor}

/-- What a cursor takes is the span behind the token under it. -/
theorem fst_takeSpan (cursor : Cursor) (bracket : Bracket) :
    (cursor.takeSpan bracket).1 = bracket.span 1 (cursor.tokens.drop (cursor.position + 1)) := by
  have same : cursor.tokens.drop (min (cursor.position + 1) cursor.tokens.length) =
      cursor.tokens.drop (cursor.position + 1) := by
    by_cases within : cursor.position + 1 ≤ cursor.tokens.length
    · rw [Nat.min_eq_left within]
    · rw [Nat.min_eq_right (by omega), List.drop_length, List.drop_of_length_le (by omega)]
  simp only [takeSpan, same]

/-- A cursor moves past what it takes. -/
theorem snd_takeSpan (cursor : Cursor) (bracket : Bracket) :
    (cursor.takeSpan bracket).2 = { cursor with
      position := min (cursor.position + 1) cursor.tokens.length +
        (cursor.takeSpan bracket).1.inside.length } :=
  rfl

/-- Behind a closed span the cursor stands as many tokens further as the span has, and one. -/
theorem snd_takeSpan_of_closed (closed : (cursor.takeSpan bracket).1.closed) :
    (cursor.takeSpan bracket).2 = { cursor with
      position := cursor.position + 1 + (cursor.takeSpan bracket).1.inside.length } := by
  rw [fst_takeSpan] at closed
  have within : cursor.position + 1 ≤ cursor.tokens.length := by
    refine Nat.le_of_not_lt fun beyond => ?_
    -- Where there are no tokens the one bracket that is open is not closed.
    rw [List.drop_of_length_le (Nat.le_of_lt beyond)] at closed
    simp [Bracket.span] at closed
  rw [snd_takeSpan, Nat.min_eq_left within]

/-- A span that is not closed has taken all tokens behind the one under the cursor. -/
theorem inside_takeSpan_of_not_closed (notClosed : ¬ (cursor.takeSpan bracket).1.closed) :
    (cursor.takeSpan bracket).1.inside = cursor.tokens.drop (cursor.position + 1) := by
  rw [fst_takeSpan] at notClosed ⊢
  have whole := Bracket.inside_append_rest bracket 1 (cursor.tokens.drop (cursor.position + 1))
  rwa [Bracket.rest_eq_nil notClosed, List.append_nil] at whole

/-- Behind a span that is not closed the cursor stands at the end of the tokens. -/
theorem snd_takeSpan_of_not_closed (notClosed : ¬ (cursor.takeSpan bracket).1.closed) :
    (cursor.takeSpan bracket).2 = { cursor with position := cursor.tokens.length } := by
  have position : min (cursor.position + 1) cursor.tokens.length +
      (cursor.tokens.drop (cursor.position + 1)).length = cursor.tokens.length := by
    rw [List.length_drop]
    omega
  rw [snd_takeSpan, inside_takeSpan_of_not_closed notClosed, position]

/-- What a cursor takes of the tokens behind the one under it, and where it stands afterwards. -/
structure TakesShortest (cursor : Cursor) (bracket : Bracket) (span : Bracket.Span)
    (moved : Cursor) : Prop where
  /-- The span is closed exactly if some first part closes one more bracket than it opens. -/
  closed_iff : span.closed ↔
    ∃ start, start <+: cursor.tokens.drop (cursor.position + 1) ∧ bracket.Overcloses start
  /-- A closed span is the shortest such part. -/
  inside_of_closed : span.closed →
    bracket.ClosesFirst (cursor.tokens.drop (cursor.position + 1)) span.inside
  /-- The cursor moves behind a closed span. -/
  moved_of_closed : span.closed →
    moved = { cursor with position := cursor.position + 1 + span.inside.length }
  /-- A span that is not closed has all tokens. -/
  inside_of_not_closed : ¬ span.closed → span.inside = cursor.tokens.drop (cursor.position + 1)
  /-- The cursor moves to the end where a span is not closed. -/
  moved_of_not_closed : ¬ span.closed → moved = { cursor with position := cursor.tokens.length }

/-- **A cursor takes the shortest span that is balanced.** Behind the token under the cursor the
span is closed if and only if one more bracket closes than opens in some first part of the tokens.
Then it is the shortest of these parts, its last token closes, in each shorter first part of it at
least as many brackets open as close, each bracket that opens in it is closed by exactly one other,
which stands before the last token, and the cursor moves behind the span. Otherwise the span is all
that stands behind the token, and the cursor moves to the end. -/
theorem takeSpan_shortest (distinct : bracket.opening ≠ bracket.closing) (cursor : Cursor) :
    cursor.TakesShortest bracket (cursor.takeSpan bracket).1 (cursor.takeSpan bracket).2 where
  closed_iff := by
    rw [fst_takeSpan]
    exact Bracket.closed_iff_overcloses distinct
  inside_of_closed := by
    rw [fst_takeSpan]
    exact Bracket.closesFirst_inside distinct
  moved_of_closed := snd_takeSpan_of_closed
  inside_of_not_closed := inside_takeSpan_of_not_closed
  moved_of_not_closed := snd_takeSpan_of_not_closed

/-- Two pairs of braces in one another, around a parenthesis that never closes, and one behind
them. -/
def bracedTokens : List Token :=
  [⟨.braceOpen, "\x7b", 1, 0⟩, ⟨.braceOpen, "\x7b", 1, 1⟩, ⟨.parenthesisOpen, "(", 1, 2⟩,
    ⟨.braceClose, "\x7d", 1, 3⟩, ⟨.braceClose, "\x7d", 1, 4⟩, ⟨.braceOpen, "\x7b", 1, 5⟩,
    ⟨.braceClose, "\x7d", 1, 6⟩]

/-- In all tokens behind the first brace one more brace closes than opens, but the span of the brace
ends with the outer pair. The span of the parenthesis takes all that is left. -/
theorem takeSpan_shortest_bracedTokens :
    let outer : Cursor := { tokens := bracedTokens }
    let middle : Cursor := { tokens := bracedTokens, position := 2 }
    Bracket.braces.opening ≠ Bracket.braces.closing ∧
    Bracket.parentheses.opening ≠ Bracket.parentheses.closing ∧
    Bracket.braces.Overcloses (bracedTokens.drop 1) ∧
    (outer.takeSpan .braces).1.closed ∧ (outer.takeSpan .braces).1.inside.length = 4 ∧
    (∀ start, start <+: bracedTokens.drop 1 → Bracket.braces.Overcloses start →
      4 ≤ start.length) ∧
    (∃ last, last + 1 < 4 ∧ Bracket.braces.Pairs (outer.takeSpan .braces).1.inside 0 last) ∧
    (outer.takeSpan .braces).2.position = 5 ∧
    ¬ (middle.takeSpan .parentheses).1.closed ∧
    (middle.takeSpan .parentheses).1.inside = bracedTokens.drop 3 ∧
    (middle.takeSpan .parentheses).2.position = 7 := by
  intro outer middle
  have braces : Bracket.braces.opening ≠ Bracket.braces.closing := by decide
  have parentheses : Bracket.parentheses.opening ≠ Bracket.parentheses.closing := by decide
  have taken := takeSpan_shortest braces outer
  have takenMiddle := takeSpan_shortest parentheses middle
  have overcloses : Bracket.braces.Overcloses (bracedTokens.drop 1) := by decide
  have closed := taken.closed_iff.mpr ⟨_, List.prefix_refl _, overcloses⟩
  have length : (outer.takeSpan .braces).1.inside.length = 4 := by decide
  have notClosed : ¬ (middle.takeSpan .parentheses).1.closed := by decide
  have first := taken.inside_of_closed closed
  have shortest := first.shortest
  have moved := taken.moved_of_closed closed
  obtain ⟨last, within, pair, -⟩ := first.pairs 0 (by decide)
  rw [length] at shortest within moved
  exact ⟨braces, parentheses, overcloses, closed, length, shortest, ⟨last, within, pair⟩,
    congrArg Cursor.position moved, notClosed, takenMiddle.inside_of_not_closed notClosed,
    congrArg Cursor.position (takenMiddle.moved_of_not_closed notClosed)⟩

end Cursor

end ScriptLens
