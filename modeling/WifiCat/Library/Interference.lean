import WifiCat.Library.CommandProgram

/-!
# Programs under interference

Between two questions of a program others may change the world, by steps of a relation
`env`.  `Holds answer env Q p s` says that whatever they do, the program `p` started in `s`
ends with a value and in a world that `Q` relates, now and at any later time.  It is closed
under sequencing (`Holds.bind`) and under the others' steps (`Holds.others`); a stable
assertion, one that the others' steps keep, is carried from question to question
(`holds_ask`, `holds_foldlM`).
-/

set_option autoImplicit false

namespace CommandProgram

variable {E : Type} {R : E → Type} {α β σ ι : Type}

namespace Prog

/-- Whatever the others do, the program ends as `Q` says. -/
def Holds (answer : (e : E) → σ → R e × σ) (env : σ → σ → Prop) (Q : α → σ → Prop) :
    Prog E R α → σ → Prop
  | .done a, s => ∀ s', Relation.ReflTransGen env s s' → Q a s'
  | .ask e k, s => ∀ s', Relation.ReflTransGen env s s' →
      Holds answer env Q (k (answer e s').1) (answer e s').2

/-- The others' steps keep the assertion. -/
def Stable (env : σ → σ → Prop) (I : σ → Prop) : Prop := ∀ s s', env s s' → I s → I s'

variable {answer : (e : E) → σ → R e × σ} {env : σ → σ → Prop} {Q : α → σ → Prop}
  {Q' : β → σ → Prop} {I J : σ → Prop} {s s' : σ}

theorem Stable.star (h : Stable env I) (hs : I s) (hstar : Relation.ReflTransGen env s s') :
    I s' := by
  induction hstar with
  | refl => exact hs
  | tail _ hstep ih => exact h _ _ hstep ih

/-- A step of the others. -/
theorem Holds.others {p : Prog E R α} (h : Holds answer env Q p s) (hstep : env s s') :
    Holds answer env Q p s' := by
  cases p with
  | done a => exact fun t ht => h t (Relation.ReflTransGen.head hstep ht)
  | ask e k => exact fun t ht => h t (Relation.ReflTransGen.head hstep ht)

/-- A step of the program. -/
theorem Holds.ask {e : E} {k : R e → Prog E R α} (h : Holds answer env Q (.ask e k) s) :
    Holds answer env Q (k (answer e s).1) (answer e s).2 :=
  h s Relation.ReflTransGen.refl

/-- The end of the program. -/
theorem Holds.done {a : α} (h : Holds answer env Q (.done a : Prog E R α) s) : Q a s :=
  h s Relation.ReflTransGen.refl

theorem Holds.mono {Q' : α → σ → Prop} {p : Prog E R α} (h : Holds answer env Q p s)
    (hQ : ∀ a t, Q a t → Q' a t) : Holds answer env Q' p s := by
  induction p generalizing s with
  | done a => exact fun t ht => hQ a t (h t ht)
  | ask e k ih => exact fun t ht => ih _ (h t ht)

/-- **Sequencing.** -/
theorem Holds.bind {p : Prog E R α} {f : α → Prog E R β} (hp : Holds answer env Q p s)
    (hf : ∀ a t, Q a t → Holds answer env Q' (f a) t) : Holds answer env Q' (p >>= f) s := by
  induction p generalizing s with
  | done a => exact hf a s hp.done
  | ask e k ih => exact fun t ht => ih _ (hp t ht)

/-- A value returned in a stable assertion. -/
theorem holds_done {a : α} (hI : Stable env I) (hs : I s) (hQ : ∀ t, I t → Q a t) :
    Holds answer env Q (.done a : Prog E R α) s :=
  fun t ht => hQ t (hI.star hs ht)

/-- A question put in a stable assertion. -/
theorem holds_ask {e : E} {k : R e → Prog E R α} (hI : Stable env I) (hs : I s)
    (hk : ∀ t, I t → Holds answer env Q (k (answer e t).1) (answer e t).2) :
    Holds answer env Q (.ask e k) s :=
  fun t ht => hk t (hI.star hs ht)

/-- **Loops**: the assertion `I l` holds when the rounds of `l` are still to come. -/
theorem holds_foldlM {f : β → ι → Prog E R β} {I : List ι → σ → Prop} (hI : Stable env (I []))
    {l : List ι} (hf : ∀ i rest b t, (i :: rest).IsSuffix l → I (i :: rest) t →
      Holds answer env (fun _ => I rest) (f b i) t) (b : β) (hs : I l s) :
    Holds answer env (fun _ => I []) (l.foldlM f b) s := by
  induction l generalizing b s with
  | nil => exact holds_done hI hs fun _ ht => ht
  | cons i rest ih =>
    rw [List.foldlM_cons]
    refine (hf i rest b s (List.suffix_refl _) hs).bind fun b' t ht => ?_
    refine ih (fun j rest' b t hsuffix hj => ?_) b' ht
    exact hf j rest' b t (hsuffix.trans (List.suffix_cons i rest)) hj

/-- A program all of whose questions keep a stable assertion. -/
theorem holds_of_always {P : E → Prop} {V : α → Prop} (hI : Stable env I)
    (hanswer : ∀ e t, P e → I t → I (answer e t).2) {p : Prog E R α} (hp : Always P V p)
    (hs : I s) : Holds answer env (fun a t => V a ∧ I t) p s := by
  induction p generalizing s with
  | done a => exact holds_done hI hs fun t ht => ⟨hp, ht⟩
  | ask e k ih =>
    refine holds_ask hI hs fun t ht => ?_
    exact ih _ (hp.2 _) (hanswer e t hp.1 ht)

end Prog

end CommandProgram
