import PredictiveFrontend.Ownership.Partition
import PredictiveFrontend.Proofs.Ownership.Braces
import Mathlib.Data.List.Forall2

/-!
# Where tokens are placed

Which tokens a class or a function owns is said by positions alone. A header begins at a keyword
behind the last brace and ends in front of the next one; if that is an opening brace, it begins the
body of an owner. Headers with a body and the braces of bodies are owned by nobody, every other
token by the innermost owner whose brace is open in front of it.
-/

namespace PredictiveFrontend

namespace Ownership

/-! ### Headers and bodies -/

/-- A keyword with which a header can begin. -/
def IsKeyword (ts : List Token) (j : Nat) : Prop :=
  KindAt ts j .classKeyword ∨ KindAt ts j .funKeyword

/-- A brace of either kind. -/
def IsBrace (ts : List Token) (j : Nat) : Prop :=
  KindAt ts j .openCurly ∨ KindAt ts j .closeCurly

/-- A position outside of headers: behind every keyword in front of it there is a brace. -/
def InCode (ts : List Token) (j : Nat) : Prop :=
  ∀ k < j, IsKeyword ts k → ∃ b, k < b ∧ b < j ∧ IsBrace ts b

/-- A header from its keyword up to a position. It holds no brace, and it does not begin inside of
another header. -/
structure IsHeader (ts : List Token) (keyword j : Nat) : Prop where
  lt : keyword < j
  isKeyword : IsKeyword ts keyword
  inCode : InCode ts keyword
  no_brace : ∀ i, keyword ≤ i → i < j → ¬IsBrace ts i

/-- Where the body of an owner begins. -/
structure Body where
  /-- The position of the keyword with which the header begins. -/
  keyword : Nat
  /-- The position of the opening brace behind the header. -/
  brace : Nat
  deriving DecidableEq, Repr

/-- A body begins at the opening brace that ends a header. -/
def IsBody (ts : List Token) (x : Body) : Prop :=
  IsHeader ts x.keyword x.brace ∧ KindAt ts x.brace .openCurly

/-- The owner that the tokens of a header announce: its keyword says what it is, and the first name
in it how it is called. -/
def headerOwner (header : List Token) : Owner :=
  ⟨if header.head?.map Token.kind = some .classKeyword then .class_ else .function,
    ((header.find? (·.kind == .identifier)).map Token.lexeme).getD Owner.anonymous⟩

/-- The owner of a body. -/
def Body.owner (ts : List Token) (x : Body) : Owner :=
  headerOwner ((ts.take x.brace).drop x.keyword)

/-- The headers of bodies, the braces behind them and the braces that close these. -/
def Unowned (ts : List Token) (j : Nat) : Prop :=
  ∃ x, IsBody ts x ∧ ((x.keyword ≤ j ∧ j ≤ x.brace) ∨ Closes ts x.brace j)

/-- The number of the innermost of the owners whose brace is open in front of a token; the top level
is number 0, and the owner of the first body number 1. -/
def Innermost (ts : List Token) (bodies : List Body) (j : Nat) : Nat → Prop
  | 0 => ∀ y, IsBody ts y → ¬IsOpen ts j y.brace
  | i + 1 => ∃ x, bodies[i]? = some x ∧ IsOpen ts j x.brace ∧
      ∀ y, IsBody ts y → IsOpen ts j y.brace → y.brace ≤ x.brace

/-- Where a token belongs: to nobody, or to the innermost owner. -/
def PlacedAt (ts : List Token) (bodies : List Body) (j : Nat) : Option Nat → Prop
  | none => Unowned ts j
  | some i => ¬Unowned ts j ∧ Innermost ts bodies j i

variable {ts : List Token} {n j : Nat} {bodies : List Body}

theorem not_isBrace_of_kind_ne {t : Token} (ht : ts[j]? = some t) (ho : t.kind ≠ .openCurly)
    (hc : t.kind ≠ .closeCurly) : ¬IsBrace ts j := by
  rintro (h | h)
  · exact ho ((kindAt_iff ht).mp h)
  · exact hc ((kindAt_iff ht).mp h)

/-- A keyword is no brace. -/
theorem IsKeyword.not_isBrace (h : IsKeyword ts j) : ¬IsBrace ts j := by
  rintro (hb | hb) <;> rcases h with h | h <;> cases h.eq hb

namespace IsHeader

variable {k : Nat}

/-- A keyword behind which no header is being read begins one. -/
theorem start (hk : IsKeyword ts n) (hcode : InCode ts n) : IsHeader ts n (n + 1) where
  lt := Nat.lt_succ_self n
  isKeyword := hk
  inCode := hcode
  no_brace := by
    intro i hi hlt
    obtain rfl : i = n := by omega
    exact hk.not_isBrace

/-- A header goes on behind a token that is no brace. -/
theorem succ (h : IsHeader ts k n) (hn : ¬IsBrace ts n) : IsHeader ts k (n + 1) where
  lt := Nat.lt_succ_of_lt h.lt
  isKeyword := h.isKeyword
  inCode := h.inCode
  no_brace := by
    intro i hi hlt
    rcases Nat.lt_succ_iff_lt_or_eq.mp hlt with hlt | rfl
    · exact h.no_brace i hi hlt
    · exact hn

/-- There is one header in front of a position. -/
theorem unique {k' : Nat} (h : IsHeader ts k n) (h' : IsHeader ts k' n) : k = k' := by
  have hnot : ∀ {k k'}, IsHeader ts k n → IsHeader ts k' n → ¬k < k' := by
    intro k k' h h' hlt
    obtain ⟨b, hb, hb', hbrace⟩ := h'.inCode k hlt h.isKeyword
    exact h.no_brace b (Nat.le_of_lt hb) (Nat.lt_trans hb' h'.lt) hbrace
  exact Nat.le_antisymm (Nat.not_lt.mp (hnot h' h)) (Nat.not_lt.mp (hnot h h'))

end IsHeader

namespace InCode

/-- Behind a brace there is no header yet. -/
theorem of_isBrace (hn : IsBrace ts n) : InCode ts (n + 1) := by
  intro k hk hkeyword
  rcases Nat.lt_succ_iff_lt_or_eq.mp hk with hlt | rfl
  · exact ⟨n, hlt, Nat.lt_succ_self n, hn⟩
  · exact absurd hn hkeyword.not_isBrace

theorem succ (h : InCode ts n) (hn : ¬IsKeyword ts n) : InCode ts (n + 1) := by
  intro k hk hkeyword
  rcases Nat.lt_succ_iff_lt_or_eq.mp hk with hlt | rfl
  · obtain ⟨b, hkb, hbn, hb⟩ := h k hlt hkeyword
    exact ⟨b, hkb, Nat.lt_succ_of_lt hbn, hb⟩
  · exact absurd hkeyword hn

/-- No body begins outside of headers. -/
theorem brace_ne (h : InCode ts n) {x : Body} (hx : IsBody ts x) : x.brace ≠ n := by
  rintro rfl
  obtain ⟨b, hkb, hbn, hbrace⟩ := h x.keyword hx.1.lt hx.1.isKeyword
  exact hx.1.no_brace b (Nat.le_of_lt hkb) hbn hbrace

end InCode

/-- A position behind which no body begins next: if there is an opening brace at all, another brace
comes first. -/
def NoBodyNext (ts : List Token) (j : Nat) : Prop :=
  ∀ b, j ≤ b → KindAt ts b .openCurly → ∃ c, j ≤ c ∧ c < b ∧ IsBrace ts c

theorem NoBodyNext.of_closeCurly (hk : KindAt ts n .closeCurly) : NoBodyNext ts n := by
  intro b hle ho
  refine ⟨n, Nat.le_refl n, Nat.lt_of_le_of_ne hle ?_, Or.inr hk⟩
  rintro rfl
  cases hk.eq ho

theorem NoBodyNext.length (ts : List Token) : NoBodyNext ts ts.length :=
  fun _ hle ho => absurd ho.lt_length (Nat.not_lt.mpr hle)

/-! ### Tokens that are kept -/

/-- A brace is kept if it neither opens nor closes a body. -/
theorem not_unowned_of_isBrace (hn : IsBrace ts n) (hbody : ∀ x, IsBody ts x → x.brace ≠ n)
    (hcloses : ∀ x, IsBody ts x → ¬Closes ts x.brace n) : ¬Unowned ts n := by
  rintro ⟨x, hx, ⟨hk, hb⟩ | hc⟩
  · exact hx.1.no_brace n hk (Nat.lt_of_le_of_ne hb (hbody x hx).symm) hn
  · exact hcloses x hx hc

/-- Outside of headers all tokens are kept that are neither keywords nor braces. -/
theorem not_unowned_of_inCode (hcode : InCode ts n) (hkeyword : ¬IsKeyword ts n)
    (hbrace : ¬IsBrace ts n) : ¬Unowned ts n := by
  rintro ⟨x, hx, ⟨hk, hb⟩ | hc⟩
  · rcases Nat.lt_or_eq_of_le hk with hlt | rfl
    · obtain ⟨b, hkb, hbn, hb'⟩ := hcode x.keyword hlt hx.1.isKeyword
      exact hx.1.no_brace b (Nat.le_of_lt hkb) (Nat.lt_of_lt_of_le hbn hb) hb'
    · exact hkeyword hx.1.isKeyword
  · exact hbrace (Or.inr hc.kindAt)

/-- The tokens of a header are kept if no opening brace comes next. -/
theorem not_unowned_of_isHeader {k : Nat} (h : IsHeader ts k n) (hend : NoBodyNext ts n)
    (hk : k ≤ j) (hj : j < n) : ¬Unowned ts j := by
  rintro ⟨x, hx, ⟨hkj, hjb⟩ | hc⟩
  · rcases Nat.lt_or_ge x.brace n with hlt | hge
    · exact h.no_brace x.brace (Nat.le_trans hk hjb) hlt (Or.inl hx.2)
    · obtain ⟨c, hnc, hcb, hbrace⟩ := hend x.brace hge hx.2
      exact hx.1.no_brace c (Nat.le_trans hkj (Nat.le_trans (Nat.le_of_lt hj) hnc)) hcb hbrace
  · exact h.no_brace j hk hj (Or.inr hc.kindAt)

/-- Inside of a header the innermost owner stays the same. -/
theorem Innermost.of_isHeader {k i : Nat} (h : IsHeader ts k n) (hk : k ≤ j) (hj : j ≤ n)
    (hi : Innermost ts bodies n i) : Innermost ts bodies j i := by
  have hopen : ∀ b, IsOpen ts n b ↔ IsOpen ts j b := fun b =>
    isOpen_iff_of_no_brace hj fun m hm hlt =>
      not_or.mp (h.no_brace m (Nat.le_trans hk hm) hlt)
  cases i with
  | zero => simpa only [Innermost, hopen] using hi
  | succ i => simpa only [Innermost, hopen] using hi

/-- More bodies change nothing about the tokens that are placed. -/
theorem PlacedAt.append {o : Option Nat} (h : PlacedAt ts bodies j o) (more : List Body) :
    PlacedAt ts (bodies ++ more) j o := by
  cases o with
  | none => exact h
  | some i =>
    refine ⟨h.1, ?_⟩
    cases i with
    | zero => exact h.2
    | succ i =>
      obtain ⟨x, hx, hinner⟩ := h.2
      exact ⟨x, List.getElem?_append_left (List.getElem?_eq_some_iff.mp hx).1 ▸ hx, hinner⟩

/-! ### Open braces and their owners -/

/-- The owner of a brace, if it is that of a body. -/
def Brace.owner? : Brace → Option Nat
  | .body owner => some owner
  | .block => none

theorem State.currentOwner_eq (s : State) :
    s.currentOwner = (s.braces.findSome? Brace.owner?).getD 0 := by
  have hf : Brace.owner? = fun
      | .body owner => some owner
      | .block => none := by
    funext b
    cases b <;> rfl
  rw [hf]
  rfl

/-- What is remembered about the brace at a position. -/
def BraceAt (ts : List Token) (bodies : List Body) : Brace → Nat → Prop
  | .body owner, b => ∃ i x, owner = i + 1 ∧ bodies[i]? = some x ∧ x.brace = b
  | .block, b => ∀ x, IsBody ts x → x.brace ≠ b

theorem BraceAt.append {brace : Brace} {b : Nat} (h : BraceAt ts bodies brace b)
    (more : List Body) : BraceAt ts (bodies ++ more) brace b := by
  cases brace with
  | body owner =>
    obtain ⟨i, x, ho, hx, hb⟩ := h
    exact ⟨i, x, ho, List.getElem?_append_left (List.getElem?_eq_some_iff.mp hx).1 ▸ hx, hb⟩
  | block => exact h

/-- The first brace of a body among the open ones, innermost first, is that of the innermost
owner. -/
theorem findSome?_owner {braces : List Brace} {opens : List Nat}
    (h : List.Forall₂ (BraceAt ts bodies) braces opens) (hs : opens.Pairwise (· > ·)) :
    match braces.findSome? Brace.owner? with
    | none => ∀ y, IsBody ts y → y.brace ∉ opens
    | some owner => ∃ i x, owner = i + 1 ∧ bodies[i]? = some x ∧ x.brace ∈ opens ∧
        ∀ y, IsBody ts y → y.brace ∈ opens → y.brace ≤ x.brace := by
  induction h with
  | nil => exact fun _ _ => List.not_mem_nil
  | @cons brace b braces opens hb hrest ih =>
    obtain ⟨hlt, hs⟩ := List.pairwise_cons.mp hs
    cases brace with
    | body owner =>
      obtain ⟨i, x, ho, hx, rfl⟩ := hb
      refine ⟨i, x, ho, hx, List.mem_cons_self .., fun y _ hy => ?_⟩
      rcases List.mem_cons.mp hy with he | hmem
      · exact Nat.le_of_eq he
      · exact Nat.le_of_lt (hlt _ hmem)
    | block =>
      have hother : ∀ y, IsBody ts y → y.brace ∈ b :: opens → y.brace ∈ opens := fun y hy hmem =>
        (List.mem_cons.mp hmem).resolve_left (hb y hy)
      have hih := ih hs
      rw [List.findSome?_cons]
      simp only [Brace.owner?]
      cases hf : braces.findSome? Brace.owner? with
      | none =>
        rw [hf] at hih
        exact fun y hy hmem => hih y hy (hother y hy hmem)
      | some owner =>
        rw [hf] at hih
        obtain ⟨i, x, ho, hx, hmem, hinner⟩ := hih
        exact ⟨i, x, ho, hx, List.mem_cons_of_mem _ hmem, fun y hy hy' =>
          hinner y hy (hother y hy hy')⟩

end Ownership

end PredictiveFrontend
