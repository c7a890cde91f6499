import SecondMind.Agent.LiveTurn
import SecondMind.Agent.Trail
import SecondMind.Agent.FailedTurns
import SecondMind.Agent.LateSecrets
import SecondMind.Auth.Sessions
import SecondMind.Calendar.Gregorian
import SecondMind.Calendar.Names
import SecondMind.Corrections.Snooze
import SecondMind.Corrections.WrongValue
import SecondMind.Core.Letters
import SecondMind.Ingestion.AckTruth
import SecondMind.Ingestion.DateForms
import SecondMind.Ingestion.NamedDates
import SecondMind.Ingestion.NearestDates
import SecondMind.Ingestion.Duplicates
import SecondMind.Ingestion.Contributions
import SecondMind.Ingestion.Outages
import SecondMind.Ingestion.PastStatements
import SecondMind.Ingestion.Timelines
import SecondMind.Ingestion.SaveCommits
import SecondMind.Ingestion.RecurringDates
import SecondMind.Ingestion.Reminders
import SecondMind.Ingestion.SaveKeys
import SecondMind.Ingestion.SecretSpans
import SecondMind.Ingestion.SingleValue
import SecondMind.Links.Canonical
import SecondMind.Links.Chunking
import SecondMind.Links.DataBlock
import SecondMind.Links.Fetcher
import SecondMind.Links.HiddenHosts
import SecondMind.Links.ReadEnds
import SecondMind.Links.SavedLinks
import SecondMind.Links.StrippedLinks
import SecondMind.Ingestion.PartsOfDay
import SecondMind.Memory.ContentTrust
import SecondMind.Memory.CorePrompt
import SecondMind.Memory.CoreTruth
import SecondMind.Memory.Expiry
import SecondMind.Memory.HeldRaces
import SecondMind.Memory.KeyRebuilds
import SecondMind.Memory.LateVectors
import SecondMind.Memory.UndoKept
import SecondMind.Memory.Recurrence
import SecondMind.Memory.Redo
import SecondMind.Memory.Secrets
import SecondMind.Memory.SkippedOps
import SecondMind.Memory.UndoConflicts
import SecondMind.Memory.Versions
import SecondMind.Metering.RateLimit
import SecondMind.Metering.Spend
import SecondMind.Persona.Copies
import SecondMind.Policy.Redaction
import SecondMind.Policy.Secrets
import SecondMind.Providers.Breaker
import SecondMind.Providers.RouterBounds
import SecondMind.Regex.Language
import SecondMind.Retrieval.Cuts
import SecondMind.Retrieval.Evidence
import SecondMind.Retrieval.Firings
import SecondMind.Retrieval.Ladder
import SecondMind.Auth.GuestCopies
