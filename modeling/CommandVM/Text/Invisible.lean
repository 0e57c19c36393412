import CommandVM.Text.Ignorable
import CommandVM.Text.Joining
import CommandVM.Text.Unprintable

/-!
# Characters without a shape of their own

Text that is shown for inspection writes these characters by number.
-/

namespace CommandVM.Text

/-- A character that is written by number where text is shown for inspection: it is not printed, it
joins the character before it, or it is shown as nothing. -/
def isInvisible (c : Char) : Bool := isUnprintable c || isJoining c || isIgnorable c

end CommandVM.Text
