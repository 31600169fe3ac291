import ClangDatabase.Symbol.Filepath

namespace ClangDatabase.Filepath

open Flatbuffers

def dotDot : Bytes := [dot, dot]

/-- What `Clean` does with one element, on the elements it keeps (the last one first): empty and
`.` elements go, `..` cancels the last kept element unless that is `..` too, and a `..` that
cancels nothing is kept in a relative path and dropped at the root. -/
def cleanElement (rooted : Bool) (st : List Bytes) (e : Bytes) : List Bytes :=
  if e = [] ∨ e = [dot] then st
  else if e = dotDot then
    match st with
    | top :: rest => if top = dotDot then dotDot :: st else rest
    | [] => if rooted then [] else [dotDot]
  else e :: st

def render (rooted : Bool) (kept : List Bytes) : Bytes :=
  if rooted then separator :: [separator].intercalate kept.reverse
  else if kept = [] then [dot] else [separator].intercalate kept.reverse

def isRooted (path : Bytes) : Bool := decide (path.head? = some separator)

/-- The elements `Clean` keeps of a path, the last one first: the runs between separators, put
through `cleanElement` from an empty stack. -/
def keptElements (path : Bytes) : List Bytes :=
  (path.splitOn separator).foldl (cleanElement (isRooted path)) []

/-- `Clean` on the element level. -/
def cleanElements (path : Bytes) : Bytes := render (isRooted path) (keptElements path)

example : cleanElements (ascii "a//b/./c/../d/") = ascii "a/b/d" := by decide
example : cleanElements (ascii "/../x") = ascii "/x" := by decide

structure Element (e : Bytes) : Prop where
  ne_nil : e ≠ []
  ne_dot : e ≠ [dot]
  sep : separator ∉ e

def CleanStack (rooted : Bool) : List Bytes → Prop
  | [] => True
  | e :: rest => Element e ∧ (e = dotDot → rooted = false ∧ ∀ d ∈ rest, d = dotDot) ∧
      CleanStack rooted rest

def rootOf (rooted : Bool) : Bytes := if rooted then [separator] else []

def written (rooted : Bool) (st : List Bytes) : Bytes :=
  [separator].intercalate (st.map List.reverse) ++ rootOf rooted

def fixedLength (rooted : Bool) (st : List Bytes) : Nat :=
  (written rooted (st.filter (· == dotDot))).length

section Lists

theorem intercalate_cons_cons {α : Type} (s : α) (a b : List α) (l : List (List α)) :
    [s].intercalate (a :: b :: l) = a ++ s :: [s].intercalate (b :: l) := by
  simp [List.intercalate]

theorem intercalate_append_singleton {α : Type} (s : α) (e : List α) :
    ∀ {l : List (List α)}, l ≠ [] → [s].intercalate (l ++ [e]) = [s].intercalate l ++ s :: e
  | [a], _ => by simp [List.intercalate]
  | a :: b :: l, _ => by
    rw [List.cons_append, List.cons_append, intercalate_cons_cons, ← List.cons_append,
      intercalate_append_singleton s e (List.cons_ne_nil _ _), intercalate_cons_cons]
    simp

theorem separator_not_mem_of_mem_splitOn :
    ∀ {path e : Bytes}, e ∈ path.splitOn separator → separator ∉ e
  | [], e, h => by simp_all
  | x :: xs, e, h => by
    have ih : ∀ e ∈ xs.splitOn separator, separator ∉ e := fun _ => separator_not_mem_of_mem_splitOn
    simp only [List.splitOn, List.splitOnP_cons] at h
    split_ifs at h with hx
    · rcases List.mem_cons.mp h with rfl | h
      · exact List.not_mem_nil _
      · exact ih e h
    · obtain ⟨y, ys, hys⟩ := List.exists_cons_of_ne_nil (List.splitOnP_ne_nil (· == separator) xs)
      have hy := ih y (by simp [List.splitOn, hys])
      rw [hys] at h
      rcases List.mem_cons.mp h with rfl | h
      · simp only [List.mem_cons, not_or]
        exact ⟨fun e => hx (by simp [e]), hy⟩
      · exact ih e (by simp [List.splitOn, hys, h])

end Lists

section Stack

variable {rooted : Bool} {st : List Bytes} {e : Bytes}

theorem element_dotDot : Element dotDot := ⟨by decide, by decide, by decide⟩

theorem CleanStack.element : ∀ {st : List Bytes}, CleanStack rooted st → ∀ e ∈ st, Element e
  | [], _, e, h => absurd h (List.not_mem_nil e)
  | _ :: _, hst, e, h => by
    rcases List.mem_cons.mp h with rfl | h
    · exact hst.1
    · exact CleanStack.element hst.2.2 e h

theorem CleanStack.append_right : ∀ {l t : List Bytes}, CleanStack rooted (l ++ t) →
    CleanStack rooted t
  | [], _, h => h
  | _ :: _, _, h => CleanStack.append_right h.2.2

theorem cleanElement_dotDot_nil : cleanElement rooted [] dotDot = if rooted then [] else [dotDot] :=
  rfl

theorem cleanElement_dotDot_cons (top : Bytes) (rest : List Bytes) :
    cleanElement rooted (top :: rest) dotDot =
      if top = dotDot then dotDot :: top :: rest else rest :=
  rfl

theorem cleanElement_push (he : Element e) (hd : e ≠ dotDot) : cleanElement rooted st e = e :: st := by
  simp [cleanElement, he.ne_nil, he.ne_dot, hd]

@[simp] theorem written_nil : written rooted [] = rootOf rooted := rfl

theorem written_cons (e : Bytes) (st : List Bytes) :
    written rooted (e :: st) =
      e.reverse ++ if st = [] then rootOf rooted else separator :: written rooted st := by
  cases st <;> simp [written, List.intercalate]

theorem length_rootOf_le (rooted : Bool) (st : List Bytes) :
    (rootOf rooted).length ≤ (written rooted st).length := by
  simp [written]

theorem length_rootOf_lt_written (he : e ≠ []) :
    (rootOf rooted).length < (written rooted (e :: st)).length := by
  have h := length_rootOf_le rooted st
  have he' := List.length_pos.mpr he
  rw [written_cons]
  split_ifs <;> simp <;> omega

theorem length_written_lt (he : e ≠ []) :
    (written rooted st).length < (written rooted (e :: st)).length := by
  cases st with
  | nil => simpa using length_rootOf_lt_written he
  | cons x rest =>
    rw [written_cons e, if_neg (List.cons_ne_nil _ _)]
    simp only [List.length_append, List.length_reverse, List.length_cons]
    omega

theorem fixedLength_cons (he : e ≠ dotDot) :
    fixedLength rooted (e :: st) = fixedLength rooted st := by
  simp [fixedLength, List.filter_cons, he]

theorem fixedLength_of_all_dotDot (h : ∀ d ∈ st, d = dotDot) :
    fixedLength rooted st = (written rooted st).length := by
  rw [fixedLength, List.filter_eq_self.mpr (by simpa using h)]

theorem fixedLength_le (hst : CleanStack rooted st) :
    fixedLength rooted st ≤ (written rooted st).length := by
  induction st with
  | nil => exact le_of_eq (fixedLength_of_all_dotDot (by simp))
  | cons e rest ih =>
    obtain ⟨he, hdd, hrest⟩ := hst
    by_cases hd : e = dotDot
    · exact le_of_eq (fixedLength_of_all_dotDot (by simpa [hd] using (hdd hd).2))
    · rw [fixedLength_cons hd]
      exact (ih hrest).trans (length_written_lt he.ne_nil).le

theorem cleanStack_cleanElement (hst : CleanStack rooted st) (he : separator ∉ e) :
    CleanStack rooted (cleanElement rooted st e) := by
  by_cases h₁ : e = [] ∨ e = [dot]
  · simpa [cleanElement, h₁] using hst
  by_cases h₂ : e = dotDot
  · subst h₂
    cases st with
    | nil => cases rooted <;> simp [cleanElement_dotDot_nil, CleanStack, element_dotDot]
    | cons top rest =>
      rw [cleanElement_dotDot_cons]
      split_ifs with ht
      · obtain ⟨hr, hall⟩ := hst.2.1 ht
        exact ⟨element_dotDot, fun _ => ⟨hr, by simpa [ht] using hall⟩, hst⟩
      · exact hst.2.2
  · push_neg at h₁
    have he' : Element e := ⟨h₁.1, h₁.2, he⟩
    rw [cleanElement_push he' h₂]
    exact ⟨he', fun h => absurd h h₂, hst⟩

theorem foldl_cleanElement :
    ∀ (es : List Bytes) (st : List Bytes), CleanStack rooted (es.reverse ++ st) →
      es.foldl (cleanElement rooted) st = es.reverse ++ st
  | [], _, _ => rfl
  | e :: es, st, h => by
    have h' : CleanStack rooted (es.reverse ++ e :: st) := by simpa using h
    have he : CleanStack rooted (e :: st) := h'.append_right
    have hpush : cleanElement rooted st e = e :: st := by
      by_cases hd : e = dotDot
      · subst hd
        obtain ⟨hr, hall⟩ := he.2.1 rfl
        cases st with
        | nil => simp [cleanElement_dotDot_nil, hr]
        | cons top rest => simp [cleanElement_dotDot_cons, hall top (List.mem_cons_self _ _)]
      · exact cleanElement_push he.1 hd
    rw [List.foldl_cons, hpush, foldl_cleanElement es (e :: st) h']
    simp

theorem foldl_cleanStack (es : List Bytes) (hes : ∀ e ∈ es, separator ∉ e) :
    ∀ st, CleanStack rooted st → CleanStack rooted (es.foldl (cleanElement rooted) st) := by
  induction es with
  | nil => exact fun _ h => h
  | cons e es ih =>
    exact fun st h => ih (fun x hx => hes x (List.mem_cons_of_mem _ hx)) _
      (cleanStack_cleanElement h (hes e (List.mem_cons_self _ _)))

end Stack

section Backtrack

variable {dotdot : Nat}

theorem backtrack_append {xs : Bytes} (hx : separator ∉ xs) {T : Bytes}
    (hT : dotdot < T.length) : backtrack dotdot (xs ++ T) = backtrack dotdot T := by
  induction xs with
  | nil => rfl
  | cons c xs ih =>
    have hc : c ≠ separator := fun h => hx (h ▸ List.mem_cons_self _ _)
    rw [List.cons_append, backtrack, if_pos ⟨by simp; omega, hc⟩,
      ih fun h => hx (List.mem_cons_of_mem _ h)]

theorem backtrack_written {rooted : Bool} {top : Bytes} {rest : List Bytes}
    (hst : CleanStack rooted (top :: rest)) :
    backtrack (fixedLength rooted rest) (written rooted (top :: rest)) = written rooted rest := by
  obtain ⟨⟨hn, -, hs⟩, -, hrest⟩ := hst
  have hs' : separator ∉ top.reverse := by simpa using hs
  rw [written_cons]
  split_ifs with hr
  · subst hr
    obtain ⟨xs, c, hxc⟩ := (List.eq_nil_or_concat top.reverse).resolve_left (by simpa using hn)
    rw [List.concat_eq_append] at hxc
    have hc : c ≠ separator := fun h => hs' (by simp [hxc, h])
    have hxs : separator ∉ xs := fun h => hs' (by rw [hxc]; exact List.mem_append_left _ h)
    have hfix : fixedLength rooted [] = (rootOf rooted).length := by simp [fixedLength]
    rw [hxc, hfix, List.append_assoc, List.singleton_append, backtrack_append hxs (by simp),
      backtrack, if_neg (by simp [hc])]
    simp
  · rw [backtrack_append (T := separator :: written rooted rest) hs'
      (Nat.lt_succ_of_le (fixedLength_le hrest))]
    simp [backtrack]

end Backtrack

section Loop

variable {rooted : Bool} {st : List Bytes} {e tail : Bytes}

theorem cleanLoop_separator (path out : Bytes) (dotdot : Nat) :
    cleanLoop rooted .element (separator :: path) out dotdot =
      cleanLoop rooted .element path out dotdot := by
  simp [cleanLoop]

theorem cleanLoop_copying_tail {t : Bytes} (ht : separator ∉ t)
    (htail : tail.head? = none ∨ tail.head? = some separator) (out : Bytes) (dotdot : Nat) :
    cleanLoop rooted .copying (t ++ tail) out dotdot =
      cleanLoop rooted .element tail (t.reverse ++ out) dotdot := by
  induction t generalizing out with
  | nil =>
    rcases htail with htail | htail
    · rw [List.head?_eq_none_iff.mp htail]
      rfl
    · obtain ⟨_, rfl⟩ := List.head?_eq_some_iff.mp htail
      simp [cleanLoop]
  | cons c t ih =>
    have hc : c ≠ separator := fun h => ht (h ▸ List.mem_cons_self _ _)
    rw [List.cons_append, cleanLoop, if_neg hc, ih (fun h => ht (List.mem_cons_of_mem _ h))]
    simp

theorem needsSeparator_written (hst : CleanStack rooted st) :
    (rooted && (written rooted st).length ≠ 1 || !rooted && (written rooted st).length ≠ 0) =
      !st.isEmpty := by
  cases st with
  | nil => cases rooted <;> rfl
  | cons e rest =>
    have h : (written rooted (e :: rest)).length ≠ (rootOf rooted).length :=
      (length_rootOf_lt_written hst.1.ne_nil).ne'
    cases rooted <;> simp_all [rootOf]

theorem cleanLoop_regular (hst : CleanStack rooted st) (he : Element e) (hdd : e ≠ dotDot)
    (htail : tail.head? = none ∨ tail.head? = some separator) :
    cleanLoop rooted .element (e ++ tail) (written rooted st) (fixedLength rooted st) =
      cleanLoop rooted .element tail (written rooted (e :: st)) (fixedLength rooted (e :: st)) := by
  obtain ⟨hn, hd, hs⟩ := he
  obtain ⟨c, t, rfl⟩ := List.exists_cons_of_ne_nil hn
  have hc : c ≠ separator := fun h => hs (h ▸ List.mem_cons_self _ _)
  have ht : separator ∉ t := fun h => hs (List.mem_cons_of_mem _ h)
  have htail' : tail.head? ≠ some dot := by
    rcases htail with h | h <;> rw [h] <;> decide
  have hdot : ¬(c = dot ∧ ((t ++ tail).head? = none ∨ (t ++ tail).head? = some separator)) := by
    rintro ⟨rfl, h⟩
    cases t with
    | nil => exact hd rfl
    | cons x t => simp at h; exact ht (h ▸ List.mem_cons_self _ _)
  have hdotdot : ¬(c = dot ∧ (t ++ tail).head? = some dot ∧
      ((t ++ tail).tail.head? = none ∨ (t ++ tail).tail.head? = some separator)) := by
    rintro ⟨rfl, h₁, h₂⟩
    rcases t with _ | ⟨x, _ | ⟨y, t⟩⟩
    · exact htail' h₁
    · simp at h₁; exact hdd (by simp [dotDot, h₁])
    · simp at h₂; exact ht (by simp [h₂])
  rw [List.cons_append, cleanLoop, if_neg hc, if_neg hdot, if_neg hdotdot]
  dsimp only
  rw [needsSeparator_written hst, cleanLoop_copying_tail ht htail, fixedLength_cons hdd,
    written_cons]
  cases st <;> simp

theorem cleanLoop_dotDot (hst : CleanStack rooted st)
    (htail : tail.head? = none ∨ tail.head? = some separator) :
    cleanLoop rooted .element (dotDot ++ tail) (written rooted st) (fixedLength rooted st) =
      cleanLoop rooted .element tail (written rooted (cleanElement rooted st dotDot))
        (fixedLength rooted (cleanElement rooted st dotDot)) := by
  have hpath : dotDot ++ tail = dot :: dot :: tail := rfl
  rw [hpath, cleanLoop, if_neg (by decide),
    if_neg (by simp only [List.head?_cons]; decide), if_pos ⟨rfl, rfl, htail⟩]
  have hskip : ∀ o d, cleanLoop rooted .skipDot (dot :: tail) o d =
      cleanLoop rooted .element tail o d := fun _ _ => rfl
  simp only [hskip]
  cases st with
  | nil =>
    rw [cleanElement_dotDot_nil]
    cases rooted <;> rfl
  | cons top rest =>
    rw [cleanElement_dotDot_cons]
    by_cases ht : top = dotDot
    · obtain ⟨hr, hall⟩ := hst.2.1 ht
      subst hr
      have hall' : ∀ d ∈ top :: rest, d = dotDot := by simpa [ht] using hall
      have hpos : 0 < (written false (top :: rest)).length :=
        lt_of_le_of_lt (Nat.zero_le _) (length_rootOf_lt_written hst.1.ne_nil)
      have hw : written false (dotDot :: top :: rest) =
          dot :: dot :: separator :: written false (top :: rest) := by
        rw [written_cons, if_neg (List.cons_ne_nil _ _)]
        rfl
      rw [fixedLength_of_all_dotDot hall', if_neg (lt_irrefl _), if_pos ht,
        fixedLength_of_all_dotDot (by simpa using hall'), hw]
      simp [hpos]
    · have hlt : fixedLength rooted (top :: rest) < (written rooted (top :: rest)).length := by
        rw [fixedLength_cons ht]
        exact lt_of_le_of_lt (fixedLength_le hst.2.2) (length_written_lt hst.1.ne_nil)
      rw [if_pos hlt, if_neg ht, fixedLength_cons ht, backtrack_written hst]

theorem cleanLoop_element (hst : CleanStack rooted st) (he : separator ∉ e)
    (htail : tail.head? = none ∨ tail.head? = some separator) :
    cleanLoop rooted .element (e ++ tail) (written rooted st) (fixedLength rooted st) =
      cleanLoop rooted .element tail (written rooted (cleanElement rooted st e))
        (fixedLength rooted (cleanElement rooted st e)) := by
  by_cases hn : e = []
  · subst hn
    simp [cleanElement]
  by_cases hd : e = [dot]
  · subst hd
    rw [List.cons_append, List.nil_append, cleanLoop, if_neg (by decide), if_pos ⟨rfl, htail⟩]
    simp [cleanElement]
  by_cases hdd : e = dotDot
  · subst hdd
    exact cleanLoop_dotDot hst htail
  · rw [cleanLoop_regular hst ⟨hn, hd, he⟩ hdd htail, cleanElement_push ⟨hn, hd, he⟩ hdd]

theorem cleanLoop_intercalate :
    ∀ (es : List Bytes) (st : List Bytes), es ≠ [] → (∀ e ∈ es, separator ∉ e) →
      CleanStack rooted st →
      cleanLoop rooted .element ([separator].intercalate es) (written rooted st)
          (fixedLength rooted st) =
        written rooted (es.foldl (cleanElement rooted) st)
  | [e], st, _, hes, hst => by
    have h := @cleanLoop_element _ _ e [] hst (hes e (List.mem_singleton_self e)) (.inl rfl)
    rw [List.append_nil] at h
    simpa [List.intercalate, cleanLoop] using h
  | e :: e' :: es, st, _, hes, hst => by
    have he := hes e (List.mem_cons_self _ _)
    rw [intercalate_cons_cons,
      @cleanLoop_element _ _ e (separator :: [separator].intercalate (e' :: es)) hst he (.inr rfl),
      cleanLoop_separator, List.foldl_cons]
    exact cleanLoop_intercalate (e' :: es) _ (List.cons_ne_nil _ _)
      (fun x hx => hes x (List.mem_cons_of_mem _ hx)) (cleanStack_cleanElement hst he)

theorem cleanLoop_splitOn (rooted : Bool) (path : Bytes) :
    cleanLoop rooted .element path (written rooted []) (fixedLength rooted []) =
      written rooted ((path.splitOn separator).foldl (cleanElement rooted) []) := by
  have h := @cleanLoop_intercalate rooted (path.splitOn separator) [] (List.splitOnP_ne_nil _ _)
    (fun _ h => separator_not_mem_of_mem_splitOn h) trivial
  rwa [List.intercalate_splitOn] at h

end Loop

section Refinement

theorem reverse_written (rooted : Bool) :
    ∀ st : List Bytes,
      (written rooted st).reverse = rootOf rooted ++ [separator].intercalate st.reverse
  | [] => by cases rooted <;> rfl
  | e :: st => by
    rw [written_cons]
    split_ifs with h
    · subst h
      cases rooted <;> simp [rootOf, List.intercalate]
    · rw [List.reverse_append, List.reverse_cons, reverse_written rooted st, List.reverse_cons,
        intercalate_append_singleton _ _ (by simpa using h)]
      simp

theorem render_eq {rooted : Bool} {st : List Bytes} (hst : CleanStack rooted st) :
    render rooted st = if written rooted st = [] then [dot] else (written rooted st).reverse := by
  rw [reverse_written]
  cases rooted
  · cases st with
    | nil => rfl
    | cons e rest =>
      have h := @length_rootOf_lt_written false rest e hst.1.ne_nil
      have hne : written false (e :: rest) ≠ [] := fun h' => by simp [h'] at h
      simp [render, hne, rootOf]
  · simp [render, written, rootOf]

theorem cleanStack_foldl_splitOn (rooted : Bool) (path : Bytes) :
    CleanStack rooted ((path.splitOn separator).foldl (cleanElement rooted) []) :=
  foldl_cleanStack _ (fun _ h => separator_not_mem_of_mem_splitOn h) [] trivial

theorem cleanStack_keptElements (path : Bytes) :
    CleanStack (isRooted path) (keptElements path) :=
  cleanStack_foldl_splitOn _ _

theorem clean_eq_cleanElements (path : Bytes) : clean path = cleanElements path := by
  cases path with
  | nil => rfl
  | cons c t =>
    by_cases hc : c = separator
    · subst hc
      have hloop : cleanLoop true .element t [separator] 1 =
          written true ((t.splitOn separator).foldl (cleanElement true) []) :=
        cleanLoop_splitOn true t
      have hsplit : (separator :: t).splitOn separator = [] :: t.splitOn separator := by
        simp [List.splitOn]
      simp only [clean, cleanElements, isRooted, keptElements, List.cons_ne_nil, if_false,
        List.head?_cons, List.tail_cons, if_true, hloop, hsplit, List.foldl_cons, decide_True]
      exact (render_eq (cleanStack_foldl_splitOn true t)).symm
    · have hloop : cleanLoop false .element (c :: t) [] 0 =
          written false (((c :: t).splitOn separator).foldl (cleanElement false) []) :=
        cleanLoop_splitOn false (c :: t)
      have hr : decide ((c :: t).head? = some separator) = false := by simp [hc]
      simp only [clean, cleanElements, isRooted, keptElements, List.cons_ne_nil, if_false,
        List.head?_cons, Option.some.injEq, hc, hloop, hr]
      exact (render_eq (cleanStack_foldl_splitOn false _)).symm

end Refinement

section Idempotence

variable {rooted : Bool} {st : List Bytes}

theorem splitOn_intercalate_reverse (hst : CleanStack rooted st) (hne : st ≠ []) :
    ([separator].intercalate st.reverse).splitOn separator = st.reverse :=
  List.splitOn_intercalate _ _ (fun e he => (hst.element e (List.mem_reverse.mp he)).sep)
    (by simpa using hne)

theorem head?_intercalate_reverse (hst : CleanStack rooted st) (hne : st ≠ []) :
    ([separator].intercalate st.reverse).head? ≠ some separator := by
  obtain ⟨a, l, hl⟩ := List.exists_cons_of_ne_nil (by simpa using hne : st.reverse ≠ [])
  have ha := hst.element a (List.mem_reverse.mp (hl ▸ List.mem_cons_self a l))
  obtain ⟨x, xs, rfl⟩ := List.exists_cons_of_ne_nil ha.ne_nil
  rw [hl]
  have hx : x ≠ separator := fun h => ha.sep (h ▸ List.mem_cons_self _ _)
  cases l <;> simp [List.intercalate, hx]

theorem render_read_back (hst : CleanStack rooted st) :
    isRooted (render rooted st) = rooted ∧ keptElements (render rooted st) = st := by
  have hkeep : st.reverse.foldl (cleanElement rooted) [] = st := by
    rw [foldl_cleanElement st.reverse [] (by simpa using hst)]
    simp
  by_cases hne : st = []
  · subst hne
    cases rooted <;> decide
  cases rooted
  · have hrender : render false st = [separator].intercalate st.reverse := by simp [render, hne]
    have hr : isRooted ([separator].intercalate st.reverse) = false := by
      simpa [isRooted] using head?_intercalate_reverse hst hne
    rw [hrender, keptElements, hr, splitOn_intercalate_reverse hst hne, hkeep]
    exact ⟨rfl, rfl⟩
  · have hrender : render true st = separator :: [separator].intercalate st.reverse := by
      simp [render]
    have hr : isRooted (separator :: [separator].intercalate st.reverse) = true := by
      simp [isRooted]
    have hsplit : (separator :: [separator].intercalate st.reverse).splitOn separator =
        [] :: st.reverse := by
      simp only [List.splitOn, List.splitOnP_cons, beq_self_eq_true, if_true]
      exact congrArg _ (splitOn_intercalate_reverse hst hne)
    rw [hrender, keptElements, hr, hsplit, List.foldl_cons]
    exact ⟨rfl, hkeep⟩

theorem clean_ne_nil (path : Bytes) : clean path ≠ [] := by
  unfold clean
  dsimp only
  split_ifs <;> simp_all

theorem clean_clean (path : Bytes) : clean (clean path) = clean path := by
  rw [clean_eq_cleanElements, clean_eq_cleanElements, cleanElements, cleanElements]
  obtain ⟨hr, hk⟩ := render_read_back (cleanStack_keptElements path)
  rw [hr, hk]

theorem clean_eq_iff (p q : Bytes) :
    clean p = clean q ↔ isRooted p = isRooted q ∧ keptElements p = keptElements q := by
  rw [clean_eq_cleanElements, clean_eq_cleanElements, cleanElements, cleanElements]
  constructor
  · intro h
    obtain ⟨hrp, hkp⟩ := render_read_back (cleanStack_keptElements p)
    obtain ⟨hrq, hkq⟩ := render_read_back (cleanStack_keptElements q)
    rw [h] at hrp hkp
    exact ⟨hrp.symm.trans hrq, hkp.symm.trans hkq⟩
  · rintro ⟨hr, hk⟩
    rw [hr, hk]

end Idempotence

end ClangDatabase.Filepath
