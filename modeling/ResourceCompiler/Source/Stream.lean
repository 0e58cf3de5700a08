import ResourceCompiler.Source.Token

/-!
The tokens of a compilation, as a stack of segments. Tokens that are spliced in are read before
the rest of what they interrupt, and nothing is copied from one segment into another. Each segment
knows how many splices deep it lies, so a file that imports itself is noticed even if the import is
the last thing in it.
-/

namespace ResourceCompiler

/-- A run of tokens of which the first ones have been read. -/
structure Segment where
  tokens : List Token
  unread : List Token
  depth : Nat
  within : unread <:+ tokens
deriving DecidableEq, Repr

namespace Segment

/-- A segment of which nothing has been read. -/
def fresh (tokens : List Token) (depth : Nat) : Segment :=
  ⟨tokens, tokens, depth, List.suffix_refl tokens⟩

def isExhausted (s : Segment) : Bool := s.unread.isEmpty

/-- The segment when one more token has been read. -/
def afterOne (s : Segment) : Segment :=
  ⟨s.tokens, s.unread.tail, s.depth, (List.tail_suffix s.unread).trans s.within⟩

end Segment

structure TokenStream where
  /-- The segment that is being read comes first. -/
  segments : List Segment
  /-- Where the last token that was read stood, and the depth of its segment. -/
  last : Location
  depth : Nat
deriving DecidableEq, Repr

namespace TokenStream

def ofTokens (tokens : List Token) : TokenStream :=
  ⟨if tokens.isEmpty then [] else [.fresh tokens 0], .unknown, 0⟩

/-- The unread tokens of some segments. Those of the last segment are not copied. -/
def unreadIn : List Segment → List Token
  | [] => []
  | [segment] => segment.unread
  | segment :: rest => segment.unread ++ unreadIn rest

/-- All that is still to be read, in reading order. -/
def unread (s : TokenStream) : List Token := unreadIn s.segments

def dropExhausted (segments : List Segment) : List Segment :=
  segments.dropWhile Segment.isExhausted

/-- Puts tokens in front of the unread ones, one level below the last token that was read. -/
def splice (s : TokenStream) (tokens : List Token) : TokenStream :=
  let rest := dropExhausted s.segments
  { s with segments := if tokens.isEmpty then rest else .fresh tokens (s.depth + 1) :: rest }

def isFinished (s : TokenStream) : Bool := s.segments.all Segment.isExhausted

/-- The token some places ahead, across the borders of segments. -/
def peekIn : List Segment → Nat → Option Token
  | [], _ => none
  | segment :: rest, ahead =>
    match segment.unread[ahead]? with
    | some t => some t
    | none => peekIn rest (ahead - segment.unread.length)

def peek? (s : TokenStream) (ahead : Nat) : Option Token := peekIn s.segments ahead

/-- The token that is read next, the segments behind it and the depth it was read at. -/
def nextIn : List Segment → Option (Token × List Segment × Nat)
  | [] => none
  | segment :: rest =>
    match segment.unread.head? with
    | none => nextIn rest
    | some t => some (t, dropExhausted (segment.afterOne :: rest), segment.depth)

/-- Reads a token. -/
def next (s : TokenStream) : Option Token × TokenStream :=
  match nextIn s.segments with
  | none => (none, { s with segments := [] })
  | some (t, segments, depth) => (some t, ⟨segments, t.location, depth⟩)

/-- Reads some tokens and forgets them. -/
def advance (s : TokenStream) : Nat → TokenStream
  | 0 => s
  | count + 1 => s.next.2.advance count

theorem unread_in_cons (segment : Segment) (rest : List Segment) :
    unreadIn (segment :: rest) = segment.unread ++ unreadIn rest := by
  cases rest with
  | nil => simp [unreadIn]
  | cons other others => rfl

end TokenStream

end ResourceCompiler
