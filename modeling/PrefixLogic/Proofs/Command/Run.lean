import PrefixLogic.Proofs.Command.Arguments
import PrefixLogic.Proofs.Script.Transcript

namespace PrefixLogic.Command

open Script

variable {host : Host Id} {arguments : List String} {given : Arguments} {source : List Char}

end PrefixLogic.Command
