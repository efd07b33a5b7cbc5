/-!
# Control characters

Text from a feed may hold terminal commands. Tables, the list of feeds and alerts are printed
without the control characters in them, the tab apart.
-/
namespace FeedDesk.Text

/-- The control characters of Unicode: C0, DEL and C1. -/
def isControl (c : Char) : Bool :=
  c.toNat < 0x20 || (0x7f ≤ c.toNat && c.toNat ≤ 0x9f)

/-- The control characters that must not reach a terminal. -/
def isUnprintable (c : Char) : Bool :=
  c != '\t' && isControl c

def stripControl (s : String) : String :=
  String.ofList (s.toList.filter (!isUnprintable ·))

theorem stripControl_clean (s : String) :
    ∀ c ∈ (stripControl s).toList, isUnprintable c = false := by
  simp [stripControl]

end FeedDesk.Text
