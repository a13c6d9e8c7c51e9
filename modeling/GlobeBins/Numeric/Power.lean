attribute [instance (high)] instPowNat

attribute [default_instance (high+1)] instPowNat
