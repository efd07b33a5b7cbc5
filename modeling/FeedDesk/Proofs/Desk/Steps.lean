import FeedDesk.Proofs.Desk.Kept
import FeedDesk.Proofs.Desk.Order

/-!
# Events in any order

Events come from the tasks of a desk in an order, but they may be handled in another, and some may
never be. A run of steps is a run of moves of the desk by itself in which an event that waits may be
put first, and the first may be taken away.
-/
namespace FeedDesk

/-- Something that happens at a desk whose events are handled in any order: a move, or the choice of
the event that comes next. -/
inductive Step where
  | move (m : Move)
  | prefer (index : Nat)

def Step.openings : Step → Nat
  | .move m => m.openings
  | .prefer _ => 0

def openingsIn (ts : List Step) : Nat := ts.foldr (fun t n => t.openings + n) 0

/-- The steps of a desk by itself: every event that is handled was reported by a task, and each is
handled once at most. -/
def Step.Own : Step → Prop
  | .move (.operate (.deliver _)) => False
  | _ => True

/-- A property in which the order of the events that wait does not count. -/
def Unordered (P : Dialog → List HostCall → List Running → List Event → Prop) : Prop :=
  ∀ {d calls tasks queue more}, P d calls tasks more → queue.Perm more → P d calls tasks queue

theorem openingsIn_cons (t : Step) (ts : List Step) :
    openingsIn (t :: ts) = t.openings + openingsIn ts := rfl

theorem Step.Own.move {m : Move} (h : (Step.move m).Own) : m.Own ∨ m = .dismissNext := by
  cases m with
  | operate op =>
    cases op with
    | deliver => exact h.elim
    | _ => exact .inl trivial
  | dismissNext => exact .inr rfl
  | _ => exact .inl trivial

theorem Dialog.Exclusive.perm {d : Dialog} {tasks : List Running} {queue more : List Event}
    (hx : d.Exclusive tasks more) (hq : queue.Perm more) : d.Exclusive tasks queue := by
  refine ⟨hx.consistent, hx.abandoned, hx.owned, fun s hs kind hk => ?_⟩
  rw [pending, hq.countP_eq]
  exact hx.single s hs kind hk

namespace Desk

variable {σ : Type} {remote : Remote σ} {opened : Nat} {desk : Desk σ}

/-- Puts one of the events that wait first. -/
def prefer (index : Nat) (desk : Desk σ) : Desk σ :=
  { desk with queue := desk.queue[index]?.toList ++ desk.queue.eraseIdx index }

def step (remote : Remote σ) (desk : Desk σ) : Step → Desk σ
  | .move m => desk.move remote m
  | .prefer index => desk.prefer index

def steps (remote : Remote σ) (desk : Desk σ) (ts : List Step) : Desk σ :=
  ts.foldl (step remote) desk

theorem prefer_perm (index : Nat) (desk : Desk σ) : (desk.prefer index).queue.Perm desk.queue := by
  unfold prefer
  dsimp only
  cases h : desk.queue[index]? with
  | none =>
    rw [List.eraseIdx_of_length_le (List.getElem?_eq_none_iff.mp h)]
    exact .refl _
  | some event => exact perm_eraseIdx h

section
variable {G : Dialog → List Running → List Event → Reply → Prop}
  {P : Dialog → List HostCall → List Running → List Event → Prop}

/-- The steps of a desk by itself keep what the view and its tasks keep, if the order of the events
does not count. -/
theorem Has.step {t : Step} (h : desk.Has P) (hk : Kept G P) (hu : Unordered P) (hown : t.Own)
    (hfresh : ∀ m, t = .move m → ¬ desk.Reuses m)
    (hg : ∀ op, t = .move (.operate op) →
      G desk.dialog desk.tasks desk.queue (desk.dialog.perform desk.wallClock op)) :
    (desk.step remote t).Has P := by
  cases t with
  | move m =>
    rcases hown.move with hm | rfl
    · exact h.move hk hm (hfresh m rfl) fun op ho => hg op (congrArg Step.move ho)
    · exact ⟨h.exclusive.dequeue (List.tail_sublist _), hk.dequeue h.holds (List.tail_sublist _)⟩
  | prefer index =>
    have hq : (desk.prefer index).queue.Perm desk.queue := prefer_perm index desk
    exact ⟨h.exclusive.perm hq, hu h.holds hq⟩

end

theorem Orderly.step {t : Step} (h : desk.Orderly opened) (hown : t.Own)
    (hfew : opened + t.openings < UInt64.size) :
    (desk.step remote t).Orderly (opened + t.openings) := by
  cases t with
  | move m =>
    rcases hown.move with hm | rfl
    · exact h.move hm hfew
    · exact Dialog.Orderly.dequeue h (List.tail_sublist _)
  | prefer index =>
    have hq : (desk.prefer index).queue.Perm desk.queue := prefer_perm index desk
    exact .of_exclusive (h.exclusive.perm hq) h.stamped fun e he => h.known e (hq.mem_iff.mp he)

end Desk

end FeedDesk
