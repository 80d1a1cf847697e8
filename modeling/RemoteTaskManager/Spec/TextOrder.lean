import Mathlib.Data.List.Lex
import Mathlib.Data.Prod.Lex
import RemoteTaskManager.Spec.Rows

/-!
# Texts in order

What sorting on a text is for: by the characters up to case, a text before those
that it begins. A null ends what is compared; texts that are the same up to a
null are ordered by length. This is the order of a key (`textKey`), and with the
keys of the other columns (`before`) it gives every column an order
(`precedes`), and every history of sorts one (`inTurn`).
-/

namespace RTM.Spec

open RTM.Impl

/-- The characters that are compared, folded, up to the first null. -/
def seen (f : WChar → WChar) : WString → List Nat
  | [] => []
  | a :: s => if f a = 0 then [0] else (f a).toNat :: seen f s

/-- The key of a text. -/
def textKey (f : WChar → WChar) (s : WString) : List Nat ×ₗ Nat := toLex (seen f s, s.length)

theorem textKey_lt {f : WChar → WChar} {s t : WString} :
    textKey f s < textKey f t ↔ seen f s < seen f t ∨ seen f s = seen f t ∧ s.length < t.length :=
  Prod.Lex.toLex_lt_toLex

/-- Whether `a` comes before `b` on any column. -/
def precedes (P : Platform) (c : ColumnNumber) (o : SortOrder) (a b : WmiProcess) : Bool :=
  if isText c then
    if o = .Ascending then textKey P.towlower (text c a) < textKey P.towlower (text c b)
    else textKey P.towlower (text c b) < textKey P.towlower (text c a)
  else before c o a b

/-- In the order of the sorts, the last one first. -/
def inTurn (P : Platform) (ks : List (ColumnNumber × SortOrder)) : WmiProcess → WmiProcess → Bool :=
  ks.foldl (fun r k => thenBy (precedes P k.1 k.2) r) fun _ _ => false

end RTM.Spec
