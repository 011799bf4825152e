import HeadsUp.Server.OneHand
import HeadsUp.Server.SessionMaps

/-!
# Messages and their replies

A message is replied to once, by an error or an acknowledgement to its sender,
unless it is an action that is applied; that one is announced to everybody
instead. Nothing else is replied to.
-/

namespace HeadsUp.Server
open HeadsUp.Core HeadsUp.Common HeadsUp.Lib

namespace GameSession
variable {s : GameSession} {session other : SessionId} {c : Choices} {json : Json}

end GameSession
end HeadsUp.Server
