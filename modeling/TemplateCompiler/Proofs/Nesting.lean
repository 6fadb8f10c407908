import TemplateCompiler.Proofs.ScanSteps
import TemplateCompiler.Template.Parser.Statement

/-!
# How tags nest

Which tags belong together can be told from the keyword behind each opening delimiter alone, so it
is clear also where the rest of a tag cannot be read. `Nested` is that reading of a token sequence:
every tag is closed, and the block tags make up whole blocks. What else stands in the tags is left
open.
-/

namespace TemplateCompiler

/-! ## Tags -/

/-- A tag, with what stands between its delimiters. -/
structure Tag where
  opening : Token
  inside : List Token
  closing : Token

namespace Tag

def tokens (g : Tag) : List Token :=
  g.opening :: (g.inside ++ [g.closing])

/-- No delimiter stands between the two at its ends. A delimiter of either kind closes a tag. -/
structure Closed (g : Tag) : Prop where
  opening : g.opening.kind = .blockStart ∨ g.opening.kind = .exprStart
  inside : ∀ t ∈ g.inside, t.kind.isInner
  closing : g.closing.kind.isCloser

/-- The keyword that a block tag starts with. -/
def word? (g : Tag) : Option String :=
  if g.opening.kind = .blockStart then
    (g.inside.head?.filter fun t => t.kind = .keyword).map (·.value)
  else none

structure Says (g : Tag) (word : String) : Prop where
  closed : g.Closed
  word : g.word? = some word

/-- A block tag with nothing but its keyword in it. -/
structure IsBare (g : Tag) : Prop where
  inside : g.inside.length = 1
  closing : g.closing.kind = .blockEnd

theorem Closed.opening_ne_eof {g : Tag} (hg : g.Closed) : g.opening.kind ≠ .eof := by
  rcases hg.opening with h | h <;> simp [h]

theorem word?_eq_some {g : Tag} {word : String} (h : g.word? = some word) :
    g.opening.kind = .blockStart ∧ ∃ t more, g.inside = t :: more ∧ t.kind = .keyword ∧
      t.value = word := by
  unfold word? at h
  split at h
  · next hopen =>
      obtain ⟨t, ht, hvalue⟩ := Option.map_eq_some_iff.mp h
      obtain ⟨hhead, hkind⟩ := Option.filter_eq_some_iff.mp ht
      obtain ⟨more, hinside⟩ := List.head?_eq_some_iff.mp hhead
      exact ⟨hopen, t, more, hinside, of_decide_eq_true hkind, hvalue⟩
  · cases h

theorem tokens_append (g : Tag) (rest : List Token) :
    g.tokens ++ rest = g.opening :: (g.inside ++ g.closing :: rest) := by
  simp [tokens]

end Tag

/-! ## Blocks -/

/-- The words of block tags that open a block. -/
def openingWords : List String :=
  ["if", "for", "macro", "call"]

/-- What a sequence of tokens stands for. -/
inductive Stretch where
  | nodes
  /-- What follows the header of a branch, through its end tag. -/
  | arms

/-- The tokens are closed tags, text and comments, and the block tags among them are well nested.
Of the tags between the body of a loop and what is for no rounds at all, only those are accepted
that are `allowed`. -/
inductive Nested (allowed : Tag → Prop) : Stretch → List Token → Prop
  | done : Nested allowed .nodes []
  | text {t : Token} {ts : List Token} (ht : t.kind = .text) (h : Nested allowed .nodes ts) :
      Nested allowed .nodes (t :: ts)
  | comment {opening body closing : Token} {ts : List Token} (hopen : opening.kind = .commentStart)
      (hbody : body.kind = .comment) (hclose : closing.kind = .commentEnd)
      (h : Nested allowed .nodes ts) : Nested allowed .nodes (opening :: body :: closing :: ts)
  | tag {g : Tag} {ts : List Token} (hg : g.Closed)
      (hword : ∀ word, g.word? = some word → word ∉ openingWords ++ Parser.closingWords)
      (h : Nested allowed .nodes ts) : Nested allowed .nodes (g.tokens ++ ts)
  | branch {first : Tag} {us ts : List Token} (hfirst : first.Says "if")
      (ha : Nested allowed .arms us) (h : Nested allowed .nodes ts) :
      Nested allowed .nodes (first.tokens ++ (us ++ ts))
  | block {word : String} {first last : Tag} {body ts : List Token}
      (hword : word ∈ ["for", "macro", "call"]) (hfirst : first.Says word)
      (hb : Nested allowed .nodes body) (hlast : last.Says ("end" ++ word))
      (h : Nested allowed .nodes ts) :
      Nested allowed .nodes (first.tokens ++ (body ++ (last.tokens ++ ts)))
  | loopElse {first middle last : Tag} {body otherwise ts : List Token} (hfirst : first.Says "for")
      (hb : Nested allowed .nodes body) (hmiddle : middle.Says "else") (hallowed : allowed middle)
      (ho : Nested allowed .nodes otherwise) (hlast : last.Says "endfor")
      (h : Nested allowed .nodes ts) :
      Nested allowed .nodes
        (first.tokens ++ (body ++ (middle.tokens ++ (otherwise ++ (last.tokens ++ ts)))))
  | endBranch {last : Tag} {body : List Token} (hb : Nested allowed .nodes body)
      (hlast : last.Says "endif") : Nested allowed .arms (body ++ last.tokens)
  | nextArm {middle : Tag} {body us : List Token} (hb : Nested allowed .nodes body)
      (hmiddle : middle.Says "elif") (ha : Nested allowed .arms us) :
      Nested allowed .arms (body ++ (middle.tokens ++ us))
  | lastArm {middle last : Tag} {body otherwise : List Token} (hb : Nested allowed .nodes body)
      (hmiddle : middle.Says "else") (ho : Nested allowed .nodes otherwise)
      (hlast : last.Says "endif") :
      Nested allowed .arms (body ++ (middle.tokens ++ (otherwise ++ last.tokens)))

end TemplateCompiler
