import PredictiveFrontend.Proofs.Tree.Drawing
import PredictiveFrontend.Tree.Numbering

/-!
# Numbered nodes form a tree

Every visit of a node numbers its children behind all nodes that have a number by then. So the lists
of children, put together in the order of the visits, are all numbers but that of the root, in
order: each node is the child of one node, which came before it. A traversal that follows the
numbers, be it with a stack or by recursion, is not bounded by anything in the nodes as such; it
ends because it meets the nodes in the order of the visits.
-/

namespace PredictiveFrontend

/-! ### Stored nodes -/

namespace NodeRecord

/-- The token at a node, if it is a leaf that holds one. -/
def token? (r : NodeRecord) : Option Token :=
  match r.content with
  | .terminal token => token
  | _ => none

/-- The label of a node. -/
def label (r : NodeRecord) : String :=
  match r.token? with
  | some token => r.symbol ++ ": " ++ ParseTree.abbreviated token.lexeme
  | none => r.symbol

end NodeRecord

/-- The numbers of stored nodes are those of a tree whose root has number zero. -/
structure FormsTree (nodes : List NodeRecord) : Prop where
  /-- A node stands at its number. -/
  number_eq : ∀ (number : Nat) (r : NodeRecord), nodes[number]? = some r → r.number = number
  /-- There is a root. -/
  root_lt : 0 < nodes.length
  /-- The children of a node are there, and they come later than the node. -/
  child_lt : ∀ (number : Nat) (r : NodeRecord), nodes[number]? = some r →
    ∀ child ∈ r.children, number < child ∧ child < nodes.length
  /-- Every node but the root is once a child of one node, and never one of another. -/
  exists_parent : ∀ child, 0 < child → child < nodes.length → ∃ parent < child,
    ∀ (number : Nat) (r : NodeRecord), nodes[number]? = some r →
      r.children.count child = if number = parent then 1 else 0
  /-- A node that has children is a nonterminal that was expanded. -/
  expanded : ∀ (number : Nat) (r : NodeRecord), nodes[number]? = some r → r.children ≠ [] →
    ∃ rule, r.content = .nonterminal (some rule)

/-! ### Traversals -/

/-- A traversal with a stack ends, and with what: the node on top is taken off, its token is
collected, and its children are put on the stack. The nodes taken off in order, and the tokens. -/
inductive Collects (nodes : List NodeRecord) : List Nat → List Nat → List Token → Prop where
  | nil : Collects nodes [] [] []
  | cons {number : Nat} {stack visited : List Nat} {r : NodeRecord} {tokens : List Token}
    (hr : nodes[number]? = some r) (hrest : Collects nodes (r.children ++ stack) visited tokens) :
    Collects nodes (number :: stack) (number :: visited) (r.token?.toList ++ tokens)

/-- The drawing of nodes behind a margin ends, and with what: each node is followed by its children,
and the last one is drawn as a last child. The nodes drawn in order, and the lines. -/
inductive Draws (nodes : List NodeRecord) :
    String → List Nat → List Nat → List String → Prop where
  | nil (margin : String) : Draws nodes margin [] [] []
  | cons {margin : String} {number : Nat} {rest below later : List Nat} {r : NodeRecord}
    {linesBelow lines : List String} (hr : nodes[number]? = some r)
    (hbelow : Draws nodes (margin ++ ParseTree.continuation rest.isEmpty) r.children below
      linesBelow)
    (hrest : Draws nodes margin rest later lines) :
    Draws nodes margin (number :: rest) (number :: (below ++ later))
      ((margin ++ ParseTree.connector rest.isEmpty ++ r.label) :: (linesBelow ++ lines))

/-- A traversal with a stack ends in one way. -/
theorem Collects.unique {nodes : List NodeRecord} {stack visited visited' : List Nat}
    {tokens tokens' : List Token} (h : Collects nodes stack visited tokens)
    (h' : Collects nodes stack visited' tokens') : visited' = visited ∧ tokens' = tokens := by
  induction h generalizing visited' tokens' with
  | nil =>
    cases h'
    exact ⟨rfl, rfl⟩
  | cons hr _ ih =>
    cases h' with
    | cons hr' hrest' =>
      obtain rfl := Option.some.inj (hr.symm.trans hr')
      obtain ⟨rfl, rfl⟩ := ih hrest'
      exact ⟨rfl, rfl⟩

/-- A drawing ends in one way. -/
theorem Draws.unique {nodes : List NodeRecord} {margin : String}
    {numbers visited visited' : List Nat} {lines lines' : List String}
    (h : Draws nodes margin numbers visited lines)
    (h' : Draws nodes margin numbers visited' lines') : visited' = visited ∧ lines' = lines := by
  induction h generalizing visited' lines' with
  | nil =>
    cases h'
    exact ⟨rfl, rfl⟩
  | cons hr _ _ ihbelow ihrest =>
    cases h' with
    | cons hr' hbelow' hrest' =>
      obtain rfl := Option.some.inj (hr.symm.trans hr')
      obtain ⟨rfl, rfl⟩ := ihbelow hbelow'
      obtain ⟨rfl, rfl⟩ := ihrest hrest'
      exact ⟨rfl, rfl⟩

/-- The one list in which something stands once. -/
theorem exists_count_of_count_flatMap {α : Type} {l : List α} {f : α → List Nat} {n : Nat}
    (h : (l.flatMap f).count n = 1) : ∃ i < l.length, ∀ (j : Nat) (a : α), l[j]? = some a →
      (f a).count n = if j = i then 1 else 0 := by
  induction l with
  | nil => simp at h
  | cons b l ih =>
    rw [List.flatMap_cons, List.count_append] at h
    by_cases hb : (f b).count n = 0
    · obtain ⟨i, hi, hcount⟩ := ih (by omega)
      refine ⟨i + 1, Nat.succ_lt_succ hi, fun j a ha => ?_⟩
      cases j with
      | zero =>
        obtain rfl : b = a := Option.some.inj ha
        simpa using hb
      | succ j => simpa using hcount j a ha
    · refine ⟨0, Nat.zero_lt_succ _, fun j a ha => ?_⟩
      cases j with
      | zero =>
        obtain rfl : b = a := Option.some.inj ha
        rw [if_pos rfl]
        omega
      | succ j =>
        have hrest : n ∉ l.flatMap f := List.count_eq_zero.mp (by omega)
        have hmem : a ∈ l := List.mem_of_getElem? ha
        rw [if_neg (Nat.succ_ne_zero j), List.count_eq_zero]
        exact fun hn => hrest (List.mem_flatMap.mpr ⟨a, hmem, hn⟩)

namespace ParseTree

/-! ### The order of the visit -/

/-- Of several trees the nodes are the roots and the nodes below them. -/
theorem sizeAll_eq (ts : List ParseTree) :
    sizeAll ts = ts.length + sizeAll (ts.flatMap children) := by
  induction ts with
  | nil => rfl
  | cons t ts ih =>
    rw [sizeAll, size_eq, List.length_cons, List.flatMap_cons, sizeAll_append]
    omega

/-- The record of the root, under a number, with its children numbered from `next` on. -/
def rootRecord (t : ParseTree) (number next : Nat) : NodeRecord :=
  ⟨number, t.symbol, t.content, List.range' next t.children.length⟩

theorem token?_rootRecord (t : ParseTree) (number next : Nat) :
    (t.rootRecord number next).token? = t.token? := by
  cases t <;> rfl

theorem label_rootRecord (t : ParseTree) (number next : Nat) :
    (t.rootRecord number next).label = t.label := by
  rw [NodeRecord.label, token?_rootRecord]
  cases t with
  | leaf symbol token => cases token <;> rfl
  | _ => rfl

theorem recordsFrom_cons (next number : Nat) (t : ParseTree) (rest : List (Nat × ParseTree)) :
    recordsFrom next ((number, t) :: rest) =
      t.rootRecord number next :: recordsFrom (next + t.children.length)
        ((List.range' next t.children.length).zip t.children ++ rest) := by
  rw [recordsFrom]
  rfl

theorem map_fst_numbered (next : Nat) (ts : List ParseTree) :
    ((List.range' next ts.length).zip ts).map Prod.fst = List.range' next ts.length :=
  List.map_fst_zip (by simp)

theorem map_snd_numbered (next : Nat) (ts : List ParseTree) :
    ((List.range' next ts.length).zip ts).map Prod.snd = ts :=
  List.map_snd_zip (by simp)

/-- The children of all nodes, in the order of the visit, are numbered one after the other. -/
theorem flatMap_children_recordsFrom (next : Nat) (pending : List (Nat × ParseTree)) :
    (recordsFrom next pending).flatMap NodeRecord.children =
      List.range' next (sizeAll ((pending.map Prod.snd).flatMap children)) := by
  induction next, pending using recordsFrom.induct with
  | case1 next =>
    rw [recordsFrom]
    rfl
  | case2 next number t rest _ _ ih =>
    have hroot : (t.rootRecord number next).children = List.range' next t.children.length := rfl
    rw [recordsFrom_cons, List.flatMap_cons, ih, hroot, List.range'_append_1, List.map_append,
      map_snd_numbered, List.flatMap_append, List.map_cons, List.flatMap_cons, sizeAll_append,
      sizeAll_append, sizeAll_eq t.children, Nat.add_assoc]

/-- Besides the roots it is the children that are visited. -/
theorem map_number_recordsFrom (next : Nat) (pending : List (Nat × ParseTree)) :
    ((recordsFrom next pending).map NodeRecord.number).Perm
      (pending.map Prod.fst ++ (recordsFrom next pending).flatMap NodeRecord.children) := by
  induction next, pending using recordsFrom.induct with
  | case1 next =>
    rw [recordsFrom]
    exact .nil
  | case2 next number t rest _ _ ih =>
    rw [recordsFrom_cons, List.map_cons, List.map_cons, List.flatMap_cons, List.cons_append]
    refine .cons number (ih.trans ?_)
    rw [List.map_append, map_fst_numbered, ← List.append_assoc]
    exact List.perm_append_comm.append_right _

/-- What comes first in a visit leaves the numbers behind its nodes to what comes later. -/
theorem recordsFrom_append (next : Nat) (pending later : List (Nat × ParseTree)) :
    recordsFrom next (pending ++ later) = recordsFrom next pending ++
      recordsFrom (next + sizeAll ((pending.map Prod.snd).flatMap children)) later := by
  induction next, pending using recordsFrom.induct with
  | case1 next =>
    rw [recordsFrom.eq_def next []]
    rfl
  | case2 next number t rest _ _ ih =>
    have hnext : next + t.children.length +
        sizeAll ((((List.range' next t.children.length).zip t.children ++ rest).map
          Prod.snd).flatMap children) =
        next + sizeAll ((((number, t) :: rest).map Prod.snd).flatMap children) := by
      rw [List.map_append, map_snd_numbered, List.flatMap_append, List.map_cons,
        List.flatMap_cons, sizeAll_append, sizeAll_append, sizeAll_eq t.children]
      omega
    rw [List.cons_append, recordsFrom_cons, recordsFrom_cons, List.cons_append, ← List.append_assoc,
      ih, hnext]

/-- A child has a later number than its parent. -/
theorem lt_of_mem_recordsFrom {next : Nat} {pending : List (Nat × ParseTree)}
    (hpending : ∀ number ∈ pending.map Prod.fst, number < next) {r : NodeRecord}
    (hr : r ∈ recordsFrom next pending) {child : Nat} (hchild : child ∈ r.children) :
    r.number < child := by
  induction next, pending using recordsFrom.induct with
  | case1 next =>
    rw [recordsFrom] at hr
    cases hr
  | case2 next number t rest _ _ ih =>
    rw [List.map_cons, List.forall_mem_cons] at hpending
    obtain ⟨hnumber, hrest⟩ := hpending
    rw [recordsFrom_cons] at hr
    rcases List.mem_cons.mp hr with rfl | hr
    · have hle : next ≤ child := (List.mem_range'_1.mp hchild).1
      exact Nat.lt_of_lt_of_le hnumber hle
    · refine ih (fun n hn => ?_) hr
      rw [List.map_append, map_fst_numbered, List.mem_append, List.mem_range'_1] at hn
      rcases hn with hn | hn
      · exact hn.2
      · exact Nat.lt_add_right _ (hrest n hn)

/-- A node of a tree that has children was expanded. -/
theorem expanded_of_mem_recordsFrom {next : Nat} {pending : List (Nat × ParseTree)}
    {r : NodeRecord} (hr : r ∈ recordsFrom next pending) (hchildren : r.children ≠ []) :
    ∃ rule, r.content = .nonterminal (some rule) := by
  induction next, pending using recordsFrom.induct with
  | case1 next =>
    rw [recordsFrom] at hr
    cases hr
  | case2 next number t rest _ _ ih =>
    rw [recordsFrom_cons] at hr
    rcases List.mem_cons.mp hr with rfl | hr
    · cases t with
      | node symbol rule children => exact ⟨rule, rfl⟩
      | _ => exact absurd rfl hchildren
    · exact ih hr

/-! ### The nodes in the order of their numbers -/

/-- All nodes are visited, and no node twice. -/
theorem map_number_recordsFrom_root (t : ParseTree) :
    ((recordsFrom 1 [(0, t)]).map NodeRecord.number).Perm (List.range t.size) := by
  refine (map_number_recordsFrom 1 [(0, t)]).trans (.of_eq ?_)
  rw [flatMap_children_recordsFrom, size_eq, List.range_eq_range', ← List.range'_append_1]
  simp

/-- Every number below the size is that of one node. -/
theorem map_number_records (t : ParseTree) :
    t.records.map NodeRecord.number = List.range t.size := by
  have hperm : (t.records.map NodeRecord.number).Perm (List.range t.size) :=
    ((List.mergeSort_perm _ _).map _).trans t.map_number_recordsFrom_root
  have hsorted : (t.records.map NodeRecord.number).Pairwise (· ≤ ·) := by
    rw [List.pairwise_map]
    refine (List.pairwise_mergeSort (fun r s u hrs hsu => ?_) (fun r s => ?_) _).imp ?_
    · simp only [decide_eq_true_eq] at hrs hsu ⊢
      exact Nat.le_trans hrs hsu
    · simpa using Nat.le_total r.number s.number
    · intro r s hrs
      simpa using hrs
  refine hperm.eq_of_pairwise (fun m n _ _ hmn hnm => Nat.le_antisymm hmn hnm) hsorted ?_
  exact List.pairwise_lt_range.imp Nat.le_of_lt

theorem length_records (t : ParseTree) : t.records.length = t.size := by
  simpa using congrArg List.length t.map_number_records

/-- At a number the node is stored that was visited under it. -/
theorem getElem?_records_eq_some {t : ParseTree} {number : Nat} {r : NodeRecord} :
    t.records[number]? = some r ↔ r ∈ recordsFrom 1 [(0, t)] ∧ r.number = number := by
  have hnumber : ∀ {n : Nat} {s : NodeRecord}, t.records[n]? = some s → s.number = n := by
    intro n s hs
    have hlt : n < t.size := t.length_records ▸ (List.getElem?_eq_some_iff.mp hs).1
    have hmap := congrArg (·[n]?) t.map_number_records
    simpa [hs, hlt] using hmap
  have hmem : r ∈ t.records ↔ r ∈ recordsFrom 1 [(0, t)] := List.mem_mergeSort
  constructor
  · exact fun hr => ⟨hmem.mp (List.mem_of_getElem? hr), hnumber hr⟩
  · rintro ⟨hr, rfl⟩
    obtain ⟨n, hn⟩ := List.mem_iff_getElem?.mp (hmem.mpr hr)
    rw [hnumber hn, hn]

/-- A node that is visited is stored at its number. -/
theorem getElem?_records {t : ParseTree} {r : NodeRecord} (hr : r ∈ recordsFrom 1 [(0, t)]) :
    t.records[r.number]? = some r :=
  getElem?_records_eq_some.mpr ⟨hr, rfl⟩

/-- The nodes of every tree, as they are numbered, form a tree. -/
theorem formsTree_records (t : ParseTree) : FormsTree t.records where
  number_eq number r hr := (getElem?_records_eq_some.mp hr).2
  root_lt := by
    rw [length_records, size_eq]
    omega
  child_lt number r hr child hchild := by
    obtain ⟨hmem, rfl⟩ := getElem?_records_eq_some.mp hr
    refine ⟨lt_of_mem_recordsFrom (by simp) hmem hchild, ?_⟩
    have hnumbered : child ∈ (recordsFrom 1 [(0, t)]).flatMap NodeRecord.children :=
      List.mem_flatMap.mpr ⟨r, hmem, hchild⟩
    rw [length_records, ← List.mem_range, ← t.map_number_recordsFrom_root.mem_iff,
      (map_number_recordsFrom 1 [(0, t)]).mem_iff]
    exact List.mem_append_right _ hnumbered
  exists_parent child hpos hlt := by
    have hperm : (t.records.flatMap NodeRecord.children).Perm
        (List.range' 1 (sizeAll t.children)) := by
      refine ((List.mergeSort_perm _ _).flatMap_right _).trans (.of_eq ?_)
      simpa using flatMap_children_recordsFrom 1 [(0, t)]
    have hcount : (t.records.flatMap NodeRecord.children).count child = 1 := by
      rw [hperm.count_eq]
      refine List.count_eq_one_of_mem List.nodup_range' ?_
      rw [length_records, size_eq] at hlt
      exact List.mem_range'_1.mpr ⟨hpos, hlt⟩
    obtain ⟨parent, hparent, hcounts⟩ := exists_count_of_count_flatMap hcount
    refine ⟨parent, ?_, hcounts⟩
    have hr := List.getElem?_eq_getElem hparent
    obtain ⟨hmem, hnumber⟩ := getElem?_records_eq_some.mp hr
    have hchild : child ∈ (t.records[parent]).children := by
      rw [← List.count_pos_iff, hcounts parent _ hr, if_pos rfl]
      exact Nat.one_pos
    exact hnumber ▸ lt_of_mem_recordsFrom (by simp) hmem hchild
  expanded number r hr hchildren :=
    expanded_of_mem_recordsFrom (getElem?_records_eq_some.mp hr).1 hchildren

/-! ### Traversals of stored trees -/

variable {nodes : List NodeRecord}

/-- A traversal of stored trees with a stack ends, in the order of the visit. -/
theorem collects_recordsFrom {next : Nat} {pending : List (Nat × ParseTree)}
    (h : ∀ r ∈ recordsFrom next pending, nodes[r.number]? = some r) :
    Collects nodes (pending.map Prod.fst) ((recordsFrom next pending).map NodeRecord.number)
      (tokensAll (pending.map Prod.snd)) := by
  induction next, pending using recordsFrom.induct with
  | case1 next =>
    rw [recordsFrom]
    exact .nil
  | case2 next number t rest _ _ ih =>
    rw [recordsFrom_cons] at h ⊢
    obtain ⟨hroot, hrest⟩ := List.forall_mem_cons.mp h
    have hbelow := ih hrest
    rw [List.map_append, map_fst_numbered, List.map_append, map_snd_numbered,
      tokensAll_append] at hbelow
    have htokens : t.tokens = (t.rootRecord number next).token?.toList ++ tokensAll t.children := by
      cases t <;> simp [rootRecord, NodeRecord.token?, content, tokens, children, tokensAll]
    rw [List.map_cons, List.map_cons, List.map_cons, tokensAll, htokens, List.append_assoc]
    exact .cons hroot hbelow

/-- The drawing of stored trees ends, in the order of the visit. -/
theorem draws_recordsFrom {next : Nat} {numbers : List Nat} {ts : List ParseTree}
    (hlength : numbers.length = ts.length)
    (h : ∀ r ∈ recordsFrom next (numbers.zip ts), nodes[r.number]? = some r) (margin : String) :
    Draws nodes margin numbers ((recordsFrom next (numbers.zip ts)).map NodeRecord.number)
      (drawnLinesAll margin ts) := by
  induction ts using forest_induction generalizing next numbers margin with
  | nil =>
    obtain rfl := List.length_eq_zero_iff.mp hlength
    rw [List.zip_nil_left, recordsFrom]
    exact .nil margin
  | cons t ts ihchildren ih =>
    cases numbers with
    | nil => simp at hlength
    | cons number numbers =>
      have hlength' : numbers.length = ts.length := Nat.succ.inj hlength
      have hempty : numbers.isEmpty = ts.isEmpty := by
        cases numbers <;> cases ts <;> simp at hlength' ⊢
      rw [List.zip_cons_cons, recordsFrom_cons, recordsFrom_append] at h ⊢
      rw [List.forall_mem_cons, List.forall_mem_append] at h
      obtain ⟨hroot, hchildren, hrest⟩ := h
      rw [List.map_cons, List.map_append, drawnLinesAll, drawnLines_eq, ← hempty,
        ← label_rootRecord t number next]
      exact .cons hroot (ihchildren (by simp) hchildren _) (ih hlength' hrest margin)

end ParseTree

end PredictiveFrontend
