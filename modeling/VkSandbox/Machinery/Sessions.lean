import VkSandbox.Machinery.Journal

/-!
# Machinery/Sessions — what a program says to the world

Some of a program's requests are exchanges with a party outside; `π` says which, with their replies.
The **session** of a call is the word of its exchanges.  `Prog.Speaks π p L` is the claim that every
session of `p` that ends with `a` is a word of the language `L · a`, whatever it is told:

    ask e k speaks L    if for every reply r    k r speaks the rest of L after the exchange (e, r)

`Speaks.bind` cuts a session where the program is cut, and `Speaks.follows` hands the language on to
the journals of a run.
-/

namespace Interleave

variable {σ μ A E : Type} {Rep : E → Type} {Tid Op ρ : Type} {α β X : Type}

/-- The exchange an event is. -/
def Event.exchange (π : (e : E) → Rep e → Option X) : Event A E Rep Tid Op ρ → Option X
  | .asked _ e r => π e r
  | _ => none

/-- The exchanges of a journal. -/
def session (π : (e : E) → Rep e → Option X) (l : List (Event A E Rep Tid Op ρ × σ)) : List X :=
  l.filterMap fun e => e.1.exchange π

theorem session_snoc (π : (e : E) → Rep e → Option X) (l : List (Event A E Rep Tid Op ρ × σ))
    (ev : Event A E Rep Tid Op ρ) (s : σ) :
    session π (l ++ [(ev, s)]) = session π l ++ (ev.exchange π).toList := by
  rw [session, session, List.filterMap_append]
  cases h : ev.exchange π <;> simp [h]

/-- **Every session of the program is a word of `L`**, whatever it finds and is told. -/
def Prog.Speaks (π : (e : E) → Rep e → Option X) :
    Prog μ A E Rep α → (List X → α → Prop) → Prop
  | ret a, L => L [] a
  | read k, L => ∀ m, (k m).Speaks π L
  | lock _ k, L => ∀ m, (k m).Speaks π L
  | ask e k, L => ∀ r, (k r).Speaks π fun w a => L ((π e r).toList ++ w) a

namespace Prog.Speaks

variable {π : (e : E) → Rep e → Option X} {p : Prog μ A E Rep α} {f : α → Prog μ A E Rep β}
  {L L' : List X → α → Prop} {K : List X → β → Prop}

theorem mono (h : p.Speaks π L) (hL : ∀ w a, L w a → L' w a) : p.Speaks π L' := by
  induction p generalizing L L' with
  | ret a => exact hL _ _ h
  | read k ih => exact fun m => ih m (h m) hL
  | lock a k ih => exact fun m => ih m (h m) hL
  | ask e k ih => exact fun r => ih r (h r) fun w a => hL _ a

/-- **A session of two programs is one of the first and then one of the second.** -/
theorem bind (h : p.Speaks π fun w a => (f a).Speaks π fun w' b => K (w ++ w') b) :
    (p >>= f).Speaks π K := by
  induction p generalizing K with
  | ret a => exact h
  | read k ih => exact fun m => ih m (h m)
  | lock a k ih => exact fun m => ih m (h m)
  | ask e k ih =>
    refine fun r => ih r ((h r).mono fun w a ha => ha.mono fun w' b hb => ?_)
    rwa [List.append_assoc] at hb

/-- Go on after a part whose sessions are known. -/
theorem after (h : p.Speaks π L) (hf : ∀ w a, L w a → (f a).Speaks π fun w' b => K (w ++ w') b) :
    (p >>= f).Speaks π K :=
  (h.mono hf).bind

/-- Return, after a session that is known. -/
theorem ends {w : List X} {a : α} (h : L w a) :
    (ret a : Prog μ A E Rep α).Speaks π fun w' a' => L (w ++ w') a' := by
  rwa [← List.append_nil w] at h

theorem look {f : μ → α} {g : α → Prog μ A E Rep β} (h : ∀ m, (g (f m)).Speaks π K) :
    (Prog.look f >>= g).Speaks π K := h

theorem enter {a : A} {f : μ → α} {g : α → Prog μ A E Rep β} (h : ∀ m, (g (f m)).Speaks π K) :
    (Prog.enter a f >>= g).Speaks π K := h

theorem map {g : α → β} (h : p.Speaks π fun w a => K w (g a)) : (g <$> p).Speaks π K := by
  exact bind (h.mono fun w a ha => ends ha)

/-- Nothing is said of a program that may say anything. -/
theorem free (p : Prog μ A E Rep α) : p.Speaks π fun _ _ => True := by
  induction p with
  | ret a => trivial
  | read k ih => exact ih
  | lock a k ih => exact ih
  | ask e k ih => exact ih

/-- A part of the program whose requests are no exchanges says nothing. -/
theorem silent (h : p.Asks fun e => ∀ r, π e r = none) : p.Speaks π fun w _ => w = [] := by
  induction p with
  | ret a => rfl
  | read k ih => exact fun m => ih m (h m)
  | lock a k ih => exact fun m => ih m (h m)
  | ask e k ih =>
    refine fun r => (ih r (h.2 r)).mono fun w a hw => ?_
    rw [h.1 r, hw]
    rfl

/-- Go on after a silent part. -/
theorem quietly (h : p.Asks fun e => ∀ r, π e r = none) (hf : ∀ a, (f a).Speaks π K) :
    (p >>= f).Speaks π K := by
  refine (silent h).after fun w a hw => ?_
  rw [hw]
  exact hf a

theorem orReturn {ε : Type} {p : Prog μ A E Rep (Except ε α)} {q : α → Prog μ A E Rep (Except ε β)}
    {L : List X → Except ε α → Prop} {K : List X → Except ε β → Prop} (h : p.Speaks π L)
    (herr : ∀ w err, L w (.error err) → K w (.error err))
    (hok : ∀ w a, L w (.ok a) → (q a).Speaks π fun w' b => K (w ++ w') b) :
    (p.orReturn q).Speaks π K := by
  refine h.after fun w r hr => ?_
  cases r with
  | error err => exact ends (herr w err hr)
  | ok a => exact hok w a hr

/-- **What a program speaks, its journal says.** -/
theorem follows {M : Machine σ μ A E Rep Tid Op ρ} {t : Tid}
    {l : List (Event A E Rep Tid Op ρ × σ)} (h : p.Speaks π fun w a => L (session π l ++ w) a) :
    M.Follows t (fun _ _ _ => True) (fun l' a => L (session π l') a) p l := by
  induction p generalizing l with
  | ret a =>
    have ha : L (session π l ++ []) a := h
    rwa [List.append_nil] at ha
  | read k ih | lock a k ih =>
    refine fun s s' _ => ⟨trivial, ih _ ((h (M.mem s)).mono fun w a hw => ?_)⟩
    simp only [session_snoc, Event.exchange, Option.toList_none, List.append_nil]
    exact hw
  | ask e k ih =>
    refine fun r s s' _ => ⟨trivial, ih r ((h r).mono fun w a hw => ?_)⟩
    rwa [session_snoc, Event.exchange, List.append_assoc]

end Prog.Speaks

end Interleave
