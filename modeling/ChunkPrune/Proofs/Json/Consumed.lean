import ChunkPrune.Proofs.Json.Reread

/-!
# A document has the tokens that it was built from

At each point of the reading, what is open and what is complete have together the tokens that were
read so far. So tokens build the document that has them, and no other one.
-/

namespace ChunkPrune.Json.Document

/-- The tokens of items, each with the comma after it. -/
def itemsBefore (items : List Document) : List Token :=
  items.flatMap fun item => item.tokens ++ [.comma]

/-- The tokens of members, each with the comma after it. -/
def membersBefore (members : List (List TextUnit × Document)) : List Token :=
  members.flatMap fun (key, value) => .string key :: .colon :: value.tokens ++ [.comma]

theorem itemTokens_concat (items : List Document) (last : Document) :
    itemTokens (items ++ [last]) = itemsBefore items ++ (last.tokens ++ [.closeArray]) := by
  induction items with
  | nil => rfl
  | cons item rest inductionHypothesis =>
      have further : itemTokens (item :: (rest ++ [last])) =
          item.tokens ++ .comma :: itemTokens (rest ++ [last]) := by
        cases rest with
        | nil => rfl
        | cons next others => rfl
      rw [List.cons_append, further, inductionHypothesis]
      simp [itemsBefore]

theorem memberTokens_concat (members : List (List TextUnit × Document)) (key : List TextUnit)
    (value : Document) :
    memberTokens (members ++ [(key, value)]) =
      membersBefore members ++ (.string key :: .colon :: value.tokens ++ [.closeObject]) := by
  induction members with
  | nil => rfl
  | cons member rest inductionHypothesis =>
      have further : memberTokens (member :: (rest ++ [(key, value)])) =
          .string member.1 :: .colon :: member.2.tokens ++
            .comma :: memberTokens (rest ++ [(key, value)]) := by
        cases rest with
        | nil => rfl
        | cons next others => rfl
      rw [List.cons_append, further, inductionHypothesis]
      simp [membersBefore]

/-! ## The tokens read so far -/

def Frame.consumed : Frame → List Token
  | array before => .openArray :: itemsBefore before.reverse
  | object before key => .openObject :: membersBefore before.reverse ++ [.string key, .colon]

def stackTokens (stack : List Frame) : List Token := stack.reverse.flatMap Frame.consumed

theorem stackTokens_cons (frame : Frame) (stack : List Frame) :
    stackTokens (frame :: stack) = stackTokens stack ++ frame.consumed := by
  simp [stackTokens]

def State.consumed : State → List Token
  | value stack => stackTokens stack
  | itemOrEnd stack => stackTokens stack ++ [.openArray]
  | keyOrEnd stack => stackTokens stack ++ [.openObject]
  | key stack before => stackTokens stack ++ .openObject :: membersBefore before.reverse
  | colon stack before units =>
    stackTokens stack ++ .openObject :: membersBefore before.reverse ++ [.string units]
  | complete stack document => stackTokens stack ++ document.tokens

variable {state next : State} {stack : List Frame} {token : Token} {tokens : List Token}

theorem State.consumed_begin? (begun : State.begin? stack token = some next) :
    next.consumed = stackTokens stack ++ [token] := by
  cases token with
  | null | bool value | number text | string units | openArray | openObject =>
      cases begun
      rfl
  | closeArray | closeObject | comma | colon => cases begun

/-- A step reads one token. -/
theorem State.consumed_step? (stepped : state.step? token = some next) :
    next.consumed = state.consumed ++ [token] := by
  unfold State.step? at stepped
  split at stepped
  · exact consumed_begin? stepped
  · cases stepped
    simp [consumed, tokens, itemTokens]
  · rw [consumed_begin? stepped, stackTokens_cons]
    rfl
  · cases stepped
    simp [consumed, tokens, memberTokens]
  · cases stepped
    simp [consumed, membersBefore]
  · cases stepped
    simp [consumed]
  · cases stepped
    simp [consumed, stackTokens_cons, Frame.consumed]
  · cases stepped
    simp [consumed, stackTokens_cons, Frame.consumed, itemsBefore]
  · cases stepped
    simp [consumed, stackTokens_cons, Frame.consumed, tokens, itemTokens_concat]
  · cases stepped
    simp [consumed, stackTokens_cons, Frame.consumed, membersBefore]
  · cases stepped
    simp [consumed, stackTokens_cons, Frame.consumed, tokens, memberTokens_concat]
  · cases stepped

theorem State.consumed_run? (run : state.run? tokens = some next) :
    next.consumed = state.consumed ++ tokens := by
  induction tokens generalizing state with
  | nil =>
      cases run
      exact (List.append_nil _).symm
  | cons token rest inductionHypothesis =>
      rw [State.run?] at run
      split at run
      next middle stepped =>
        rw [inductionHypothesis run, consumed_step? stepped, List.append_assoc]
        rfl
      · cases run

/-- Tokens build the document that has them. -/
theorem ofTokens?_eq_some_iff {document : Document} :
    ofTokens? tokens = some document ↔ tokens = document.tokens := by
  constructor
  · intro built
    rw [ofTokens?] at built
    split at built
    next state run =>
      have consumed := State.consumed_run? run
      unfold State.finish? at built
      split at built
      · cases built
        exact consumed.symm
      · cases built
    · cases built
  · rintro rfl
    exact ofTokens?_tokens document

end ChunkPrune.Json.Document
